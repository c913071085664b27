import Inlay.Proofs.Compile.Plan
import Inlay.Proofs.Path.Outputs
import Inlay.Proofs.Walk.Exact
import Inlay.Proofs.Walk.Shape
import Mathlib

/-!
# Outputs among the sources

A build in place writes over a source only if one of the extensions ends with the other, and then
some folder shows it (`sources_not_overwritten`).
-/

namespace Inlay

open Inlay.Action

namespace Path

theorem exists_append_descend (root : Path) {names : List Text} (h : ∀ n ∈ names, IsPiece n) :
    ∃ suffix, descend root names = root ++ suffix := by
  by_cases hr : root = []
  · exact ⟨descend [] names, by rw [hr, List.nil_append]⟩
  · by_cases hne : names = []
    · exact ⟨[], by rw [hne, descend_nil, List.append_nil]⟩
    · exact ⟨gap root ++ Text.join '/' names, by rw [descend_eq hr hne h, List.append_assoc]⟩

theorem isName_cons {c : Char} {t : Text} (hc : isSeparator c = false ∧ c ≠ '.')
    (h : ∀ d ∈ t, isSeparator d = false) : IsName (c :: t) ∧ '\\' ∉ c :: t := by
  have hall : ∀ d ∈ c :: t, isSeparator d = false := by simpa using ⟨hc.1, h⟩
  refine ⟨⟨by simp, fun hm => ?_, ?_, ?_⟩, fun hm => ?_⟩
  · exact absurd (hall _ hm) (by decide)
  · simp [here, hc.2]
  · simp [above, hc.2]
  · exact absurd (hall _ hm) (by decide)

end Path

namespace Compile

/-- Every file that is spelled from the root on has its job. -/
theorem exists_planJobs (root output target source : Path) {files : List Path}
    (h : ∀ file ∈ files, ∃ suffix, file = root ++ suffix) :
    ∃ jobs, planJobs root output target source files = .ok jobs ∧
      ∀ job ∈ jobs, ∃ suffix, job.output =
        Path.under output (Path.forward (Path.swapExtension suffix target source)) := by
  unfold planJobs
  induction files with
  | nil => exact ⟨[], rfl, by simp⟩
  | cons file files ih =>
    obtain ⟨jobs, hjobs, hall⟩ := ih fun f hf => h f (List.mem_cons_of_mem _ hf)
    rw [List.filter_cons]
    split
    · obtain ⟨suffix, rfl⟩ := h file (List.mem_cons_self ..)
      refine ⟨⟨root ++ suffix, Path.under output
        (Path.forward (Path.swapExtension suffix target source))⟩ :: jobs, ?_, fun job hjob => ?_⟩
      · rw [List.mapM_cons, hjobs, Path.mirror_of_append]
        rfl
      · rcases List.mem_cons.1 hjob with rfl | hjob
        · exact ⟨suffix, rfl⟩
        · exact hall job hjob
    · exact ⟨jobs, hjobs, hall⟩

variable [Host]

theorem exists_folder_of_two {a b : Text} (ha : Path.IsName a) (hua : Path.IsUsable a)
    (hb : Path.IsName b) (hub : Path.IsUsable b) (hne : a ≠ b) :
    ∃ v : Volume, v.Tree ∧ v.Leads ['r'] [['r']] ∧ v.get? [['r']] = some .folder ∧
      ∀ n ∈ [a, b], v.get? ([['r']] ++ [n]) = some (.file []) := by
  let base : Volume := ⟨[([['r']], .folder)], [], .unbounded⟩
  let first := base.put ([['r']] ++ [a]) (.file [])
  have hget (place : Place) : (first.put ([['r']] ++ [b]) (.file [])).get? place =
      if place = [['r'], b] then some (.file [])
      else if place = [['r'], a] then some (.file []) else base.get? place := by
    rw [Volume.get?_put (by simp), Volume.get?_put (by simp)]
    rfl
  have hempty : (⟨[], [], .unbounded⟩ : Volume).Tree :=
    ⟨rfl, by simp, by simp [Volume.Named], by simp, by simp⟩
  have hbase : base.Tree := hempty.put (Volume.get?_nil _) (show Path.IsName ['r'] by decide)
    (Path.isUsable_of_toNat_lt (by simp)) (show Entry.folder.isLink = false from rfl)
    (by simp [Volume.get?])
  have hfirst : first.Tree :=
    hbase.put rfl ha hua rfl (by simp [base, Volume.get?, List.lookup_cons])
  have hfolder : first.get? [['r']] = some .folder := by
    rw [Volume.get?_put (by simp)]
    rfl
  have hfree : first.get? ([['r']] ++ [b]) ≠ some .folder := by
    rw [Volume.get?_put (by simp)]
    simp [base, Volume.get?, List.lookup_cons, hne.symm]
  have hv : (first.put ([['r']] ++ [b]) (.file [])).Tree := hfirst.put hfolder hb hub rfl hfree
  have hroot : (first.put ([['r']] ++ [b]) (.file [])).get? ([] ++ [['r']]) = some .folder := by
    rw [hget]
    rfl
  refine ⟨_, hv, ⟨by simp, hv.follow_names hroot true _⟩, hroot, fun n hn => ?_⟩
  simp only [List.mem_cons, List.not_mem_nil, or_false] at hn
  rcases hn with rfl | rfl
  · rw [hget]
    simp
  · rw [hget]
    simp

/-- The output of the one has the extension of the other. -/
theorem exists_overwritten {profile : Profile} (hc : profile.Checked) {source target : Text}
    (kept : Text) (hsne : source ≠ []) (hne : source ≠ target)
    (hn : ∀ extension ∈ [source, target], Path.IsName (kept ++ extension) ∧
      '\\' ∉ kept ++ extension ∧ Path.IsUsable (kept ++ extension))
    (hsuffix : source <:+ kept ++ target) :
    ∃ (s : Workspace) (root : Path) (files : List Path) (jobs : List Job), s.volume.Tree ∧
      s.faults = [] ∧ (walkFiles profile root).runOn s = (.ok files, s) ∧
      planJobs root root target source files = .ok jobs ∧
      ∃ job ∈ jobs, job.output ∈ files.filter (Path.hasExtension · source) := by
  obtain ⟨hsource, _, hus⟩ := hn source (by simp)
  obtain ⟨htarget, htb, hut⟩ := hn target (by simp)
  have hss : '/' ∉ source := fun h => hsource.2.1 (List.mem_append_right _ h)
  obtain ⟨v, hv, hl, hroot, hfiles⟩ := exists_folder_of_two hsource hus htarget hut
    fun h => hne (List.append_cancel_left h)
  let s : Workspace := { Workspace.initial [] [] with volume := v }
  obtain ⟨ways, hrun, _, hways, hnames⟩ := Walk.exists_runOn_walkFiles
    (show s.volume.Tree from hv) rfl hl hc hroot
  have hin {n : Text} (hm : n ∈ [kept ++ source, kept ++ target]) : [n] ∈ ways :=
    (hways _).2 ⟨[], hfiles n hm⟩
  have hplan := planJobs_descend hss ['r'] ['r'] target (fun way hm => (hnames way hm).1)
    fun way hm => Path.isPiece_of_isName (hnames way hm).2
  have hout : (jobOf ['r'] ['r'] target source ⟨[], kept⟩).output =
      Path.descend ['r'] [kept ++ target] := by
    have hm := Path.mirrored_source hsne [] (by simp) ⟨htarget.1, htarget.2.1, htb⟩
    rw [jobOf, Stem.way, hm, Path.under_join (by decide) (by simp) (by simpa using htarget.isPiece)]
    rfl
  refine ⟨s, ['r'], _, _, hv, rfl, hrun, hplan, jobOf ['r'] ['r'] target source ⟨[], kept⟩,
    List.mem_map_of_mem (mem_stems.2 (hin (by simp))), ?_⟩
  rw [hout]
  refine List.mem_filter.2 ⟨List.mem_map_of_mem (hin (by simp)), ?_⟩
  have hext := Path.hasExtension_descend hss ['r'] [] htarget.isPiece
  rw [List.nil_append] at hext
  rw [hext, Path.hasExtension, List.isSuffixOf_iff_suffix]
  exact hsuffix

/-- Of plain extensions that overlap, the stem of a source may be such that its output, too, is
named like a source: it ends with what the source extension has in front of the target extension. -/
theorem exists_stem_of_overlap {source target : Text}
    (hplain : ∀ c ∈ source ++ target, Path.isSeparator c = false)
    (husable : Path.IsUsable (source ++ target))
    (hoverlap : source <:+ target ∨ target <:+ source) :
    ∃ kept, (∀ extension ∈ [source, target], Path.IsName (kept ++ extension) ∧
      '\\' ∉ kept ++ extension ∧ Path.IsUsable (kept ++ extension)) ∧
      source <:+ kept ++ target := by
  have hname (more : Text) (hmore : more ⊆ source ++ target) : ∀ extension ∈ [source, target],
      Path.IsName ('a' :: more ++ extension) ∧ '\\' ∉ 'a' :: more ++ extension ∧
        Path.IsUsable ('a' :: more ++ extension) := by
    intro extension he
    have hletter : Path.IsUsable ['a'] := Path.isUsable_of_toNat_lt (by simp)
    have hsub : more ++ extension ⊆ source ++ target := by
      simp only [List.mem_cons, List.not_mem_nil, or_false] at he
      refine List.append_subset.2 ⟨hmore, ?_⟩
      rcases he with rfl | rfl
      · exact List.subset_append_left ..
      · exact List.subset_append_right ..
    obtain ⟨hgood, hback⟩ : Path.IsName ('a' :: (more ++ extension)) ∧
        '\\' ∉ 'a' :: (more ++ extension) :=
      Path.isName_cons (by decide) fun c hc => hplain c (hsub hc)
    exact ⟨hgood, hback, Path.isUsable_append (a := ['a']).2 ⟨hletter, husable.subset hsub⟩⟩
  rcases hoverlap with h | ⟨more, rfl⟩
  · exact ⟨['a'], hname [] (List.nil_subset _), h.trans (List.suffix_append _ _)⟩
  · refine ⟨'a' :: more, hname more fun c hc => ?_, List.suffix_append ['a'] (more ++ target)⟩
    exact List.mem_append_left _ (List.mem_append_left _ hc)

/-- A build in place keeps its sources if neither extension, the target in the form that outputs
have, ends with the other; plain extensions of which one ends with the other overwrite one, if files
can have them. -/
theorem sources_not_overwritten {mode : CheckMode} {given : Value} {table : Table}
    {findings : List Finding} (hcheck : checkSettings mode given = .ok (table, findings))
    {source target : Text} (hs : (Profile.ofTable table).sourceExtension = some source)
    (ht : (Profile.ofTable table).targetExtension = some target) :
    (¬ source <:+ Path.slashes target → ¬ Path.slashes target <:+ source →
      ∀ (s t : Workspace) (root : Path) (files : List Path), s.volume.Named →
        (walkFiles (Profile.ofTable table) root).runOn s = (.ok files, t) →
        ∃ jobs, planJobs root root target source files = .ok jobs ∧
          ∀ job ∈ jobs, job.output ∉ files.filter (Path.hasExtension · source)) ∧
    ((∀ c ∈ source ++ target, Path.isSeparator c = false) → Path.IsUsable (source ++ target) →
      source <:+ target ∨ target <:+ source →
      ∃ (s : Workspace) (root : Path) (files : List Path) (jobs : List Job), s.volume.Tree ∧
        s.faults = [] ∧ (walkFiles (Profile.ofTable table) root).runOn s = (.ok files, s) ∧
        planJobs root root target source files = .ok jobs ∧
        ∃ job ∈ jobs, job.output ∈ files.filter (Path.hasExtension · source)) := by
  have hc := checked_of_checkSettings hcheck
  obtain ⟨source', target', hs', ht', hsh, hth, hne⟩ := hc.extensions
  obtain rfl : source = source' := Option.some.inj (hs.symm.trans hs')
  obtain rfl : target = target' := Option.some.inj (ht.symm.trans ht')
  refine ⟨fun hst hts s t root files hv hwalk => ?_, fun hplain husable hoverlap => ?_⟩
  · obtain ⟨ways, rfl, hways⟩ := Walk.exists_ways_of_walkFiles hv hwalk
    have hspelled : ∀ file ∈ ways.map (Path.descend root), ∃ suffix, file = root ++ suffix := by
      intro file hf
      obtain ⟨way, hm, rfl⟩ := List.mem_map.1 hf
      exact Path.exists_append_descend root
        (Path.isPiece_of_isName fun n hn => ((hways way hm).2 n hn).1)
    obtain ⟨jobs, hjobs, hall⟩ := exists_planJobs root root target source hspelled
    refine ⟨jobs, hjobs, fun job hjob hin => ?_⟩
    obtain ⟨suffix, hout⟩ := hall job hjob
    have hends := Path.hasExtension_under_forward hth root suffix source
    rw [← hout, Path.hasExtension, List.isSuffixOf_iff_suffix] at hends
    have hsource := (List.mem_filter.1 hin).2
    rw [Path.hasExtension, List.isSuffixOf_iff_suffix] at hsource
    rcases List.suffix_or_suffix_of_suffix hsource hends with h | h
    · exact hst h
    · exact hts h
  · have hsne : source ≠ [] := by
      rintro rfl
      simp at hsh
    obtain ⟨kept, hn, hsuffix⟩ := exists_stem_of_overlap hplain husable hoverlap
    exact exists_overwritten hc kept hsne hne hn hsuffix

end Compile

end Inlay

namespace Inlay.Compile

open Inlay.Standard

theorem sources_not_overwritten_in_folder :
    ∃ jobs, planJobs ['r'] ['r'] ".php".toList ".tea".toList
        ["r/a.tea".toList, "r/a.php".toList] = .ok jobs ∧
      ∀ job ∈ jobs, job.output ∉
        ["r/a.tea".toList, "r/a.php".toList].filter (Path.hasExtension · ".tea".toList) := by
  have hcheck : checkSettings .lenient (.table []) = .ok (Setting.defaults, []) := rfl
  have hwalk : (walkFiles (Profile.ofTable Setting.defaults) ['r']).runOn (.holding
      [([['r']], .folder), ([['r'], "a.tea".toList], .file []),
        ([['r'], "a.php".toList], .file [])]) =
      (.ok ["r/a.tea".toList, "r/a.php".toList], .holding
        [([['r']], .folder), ([['r'], "a.tea".toList], .file []),
          ([['r'], "a.php".toList], .file [])]) := by cbv
  exact (sources_not_overwritten hcheck rfl rfl).1 (by decide) (by decide) _ _ _ _ (by decide) hwalk

/-- Settings that a check accepts as they are, and a source that is an output. -/
theorem exists_overwritten_source :
    ∃ (table : Table) (s : Workspace) (files : List Path) (jobs : List Job),
      checkSettings .strict (.table [(Setting.targetExtension, .text ".min.tea".toList)]) =
        .ok (table, []) ∧
      s.volume.Tree ∧ s.faults = [] ∧
      (walkFiles (Profile.ofTable table) ['r']).runOn s = (.ok files, s) ∧
      planJobs ['r'] ['r'] ".min.tea".toList ".tea".toList files = .ok jobs ∧
      ∃ job ∈ jobs, job.source = "r/a.tea".toList ∧ job.output = "r/a.min.tea".toList ∧
        job.output ∈ files.filter (Path.hasExtension · ".tea".toList) :=
  ⟨Setting.defaults.set Setting.targetExtension (.text ".min.tea".toList),
    .holding [([['r']], .folder), ([['r'], "a.tea".toList], .file []),
      ([['r'], "a.min.tea".toList], .file [])],
    ["r/a.tea".toList, "r/a.min.tea".toList],
    [⟨"r/a.tea".toList, "r/a.min.tea".toList⟩, ⟨"r/a.min.tea".toList, "r/a.min.min.tea".toList⟩],
    rfl, by decide, rfl, by cbv, by decide, _, List.mem_cons_self .., rfl, rfl, by decide⟩

end Inlay.Compile
