import Inlay.Proofs.Clean.Removing
import Inlay.Proofs.Command.Reporting
import Inlay.Proofs.Compile.Overwriting

/-!
# Sources and cleaning

What cleaning removes has the target extension, so a source is spared if neither extension ends with
the other, whatever fails on the way (`spares_cleanPath`). Extensions of which one ends with the
other let a file play both parts (`exists_removed`).
-/

namespace Inlay

open Inlay.Action

/-- Every place whose name ends with the extension still has an entry if it had one. -/
def Volume.Spares (extension : Text) (v w : Volume) : Prop :=
  ∀ place name, extension <:+ name → v.get? (place ++ [name]) ≠ none →
    w.get? (place ++ [name]) ≠ none

namespace Volume

variable {extension : Text} {v w : Volume}

theorem Spares.refl (extension : Text) (v : Volume) : Spares extension v v := fun _ _ _ h => h

theorem Spares.trans {u : Volume} (h : Spares extension u v) (h' : Spares extension v w) :
    Spares extension u w := fun place name hn hu => h' place name hn (h place name hn hu)

theorem Retains.spares (h : v.Retains w) (extension : Text) : v.Spares extension w :=
  fun _ _ _ hv => h _ hv

theorem spares_erase {name : Text} (h : ¬ extension <:+ name) (v : Volume) (folder : Place) :
    v.Spares extension (v.erase (folder ++ [name])) := by
  intro place name' hn hv
  have hother : place ++ [name'] ≠ folder ++ [name] := by
    intro heq
    obtain ⟨_, hname⟩ := List.append_inj' heq rfl
    obtain rfl : name' = name := by simpa using hname
    exact h hn
  rwa [get?_erase (by simp), if_neg hother]

end Volume

namespace Clean

variable [Host] {source target : Text}

/-! ### Extensions that do not overlap -/

section
variable (hst : ¬ source <:+ target) (hts : ¬ target <:+ source)
include hst hts

theorem spares_cleanFile (dryRun : Bool) {root : Path} {way : List Text} (hne : way ≠ [])
    (hway : ∀ n ∈ way, Path.IsName n)
    (hext : Path.hasExtension (Path.descend root way) target = true) :
    Moves (Volume.Spares source)
      (cleanFile dryRun source target (Path.descend root way)) := by
  obtain ⟨names, name, rfl⟩ := (List.eq_nil_or_concat way).resolve_left hne
  rw [List.concat_eq_append] at hway hext ⊢
  have hname := hway name (by simp)
  -- The removed name is the end of a path that ends with the target extension.
  have hkept : ¬ source <:+ name := by
    intro h
    obtain ⟨lead, hlead⟩ := Path.exists_lead root names
    rw [Path.hasExtension, List.isSuffixOf_iff_suffix, hlead name hname.isPiece] at hext
    rcases List.suffix_or_suffix_of_suffix (h.trans (List.suffix_append lead name)) hext with
      hsuffix | hsuffix
    · exact hst hsuffix
    · exact hts hsuffix
  refine moves_cleanFile (Volume.Spares.refl source)
    (fun u v w => @Volume.Spares.trans source v w u) (fun v w _ h => ?_) dryRun source target
  obtain ⟨folder, rfl⟩ := Volume.exists_of_remove_descend
    (fun n hn => hway n (List.mem_append_left _ hn)) hname h
  exact Volume.spares_erase hkept v folder

theorem spares_cleanFiles {profile : Profile} (hs : profile.sourceExtension = some source)
    (ht : profile.targetExtension = some target) (root : Path) {ways : List (List Text)}
    (hways : ∀ way ∈ ways, way ≠ [] ∧ ∀ n ∈ way, Path.IsName n) (request : Request)
    (s : Workspace) :
    s.volume.Spares source
      ((cleanFiles request profile (ways.map (Path.descend root))).runOn s).2.volume := by
  have hrefl := Volume.Spares.refl source
  have htrans := fun u v w => @Volume.Spares.trans source v w u
  have heach : Moves (Volume.Spares source)
      ((selectGenerated source target (ways.map (Path.descend root))).mapM
        (cleanFile request.dryRun source target)) := by
    apply moves_mapM hrefl htrans
    intro file hfile
    obtain ⟨hmem, hext, _⟩ := (mem_selectGenerated ..).1 hfile
    obtain ⟨way, hway, rfl⟩ := List.mem_map.1 hmem
    exact spares_cleanFile hst hts _ (hways way hway).1 (hways way hway).2 hext
  unfold cleanFiles
  rw [runOn_bind_of_ok (runOn_need_some hs s), runOn_bind_of_ok (runOn_need_some ht s)]
  refine moves_bind htrans heach (fun outcomes => ?_) s
  exact moves_bind htrans
    ((Report.moves_writeIfAsked _ _ _).mono fun _ _ h => h.spares source) fun _ =>
      (keeps_bind (keeps_log _ _ _) fun _ => keeps_pure _).moves hrefl

theorem spares_cleanPath {profile : Profile} (hs : profile.sourceExtension = some source)
    (ht : profile.targetExtension = some target) {request : Request} {s t : Workspace}
    (hv : s.volume.Named) {r : Except Failure Result}
    (h : (cleanPath request profile).runOn s = (r, t)) : s.volume.Spares source t.volume := by
  obtain ⟨u, hu, hvolume⟩ : ∃ u, s.logged ⟨Level.info, logger,
      s!"Cleaning generated files under: {str request.input}"⟩ = u ∧ u.volume = s.volume :=
    ⟨_, rfl, s.logged_volume _⟩
  have hkept := Volume.Spares.refl source s.volume
  unfold cleanPath at h
  rw [runOn_bind_of_ok (runOn_get s)] at h
  cases hfolder : s.volume.isFolder request.input with
  | false =>
    simp only [hfolder, Bool.not_false, if_true] at h
    rw [runOn_bind_of_error (runOn_throw _ _)] at h
    rw [← (Prod.mk.inj h).2]
    exact hkept
  | true =>
    simp only [hfolder, Bool.not_true, Bool.false_eq_true, if_false] at h
    rw [runOn_bind_of_ok (runOn_log _ _ _ s), hu, runOn_bind, runOn_attempt] at h
    cases hwalk : (Compile.walkFiles profile request.input).runOn u with
    | mk walked w =>
      have hw : w.volume = s.volume :=
        ((Walk.keeps_walkFiles profile request.input).volume_eq hwalk).trans hvolume
      rw [hwalk] at h
      cases walked with
      | ok files =>
        obtain ⟨ways, rfl, hways⟩ := Walk.exists_ways_of_walkFiles (hvolume ▸ hv) hwalk
        have hclean := spares_cleanFiles hst hts hs ht request.input
          (fun way hw => ⟨(hways way hw).1, fun n hn => ((hways way hw).2 n hn).1⟩) request w
        simp only at h
        rw [h, hw] at hclean
        exact hclean
      | error f =>
        have hend : t.volume = w.volume := by
          cases f with
          | listing folder detail =>
            simp only at h
            rw [runOn_bind_of_ok (runOn_log _ _ _ w)] at h
            rw [← (Prod.mk.inj h).2, Workspace.logged_volume]
          | _ => rw [← (Prod.mk.inj h).2]
        rw [hend, hw]
        exact hkept

end

/-! ### Extensions that overlap -/

/-- The file of the longer extension is a source, and the other one stands beside it. -/
theorem exists_removed {profile : Profile} (hc : profile.Checked)
    (hs : profile.sourceExtension = some source) (ht : profile.targetExtension = some target)
    (kept : Text) (hsne : source ≠ []) (htne : target ≠ []) (hne : source ≠ target)
    (hn : ∀ extension ∈ [source, target], Path.IsName (kept ++ extension) ∧
      '\\' ∉ kept ++ extension ∧ Path.IsUsable (kept ++ extension))
    (hsuffix : source <:+ kept ++ target) :
    ∃ (s t : Workspace) (request : Request) (r : Result), s.volume.Tree ∧ s.faults = [] ∧
      (cleanPath request profile).runOn s = (.ok r, t) ∧
      ∃ place name content, source <:+ name ∧
        s.volume.get? (place ++ [name]) = some (.file content) ∧
        t.volume.get? (place ++ [name]) = none := by
  obtain ⟨hsource, _, hus⟩ := hn source (by simp)
  obtain ⟨htarget, _, hut⟩ := hn target (by simp)
  obtain ⟨v, hv, hl, hroot, hfiles⟩ := Compile.exists_folder_of_two hsource hus htarget hut
    fun h => hne (List.append_cancel_left h)
  have hss : '/' ∉ source := fun h => hsource.2.1 (List.mem_append_right _ h)
  have hst : '/' ∉ target := fun h => htarget.2.1 (List.mem_append_right _ h)
  have hfile := hfiles (kept ++ target) (by simp)
  let s : Workspace := { Workspace.initial [] [] with volume := v }
  obtain ⟨r, t, ways, hrun, _, hways, _, hcleared⟩ := exists_runOn_cleanPath_tree
    (s := s) hv rfl ⟨"clean", ['r'], none, false⟩ hl hroot hc hs ht rfl
  refine ⟨s, t, _, r, hv, rfl, hrun, [['r']], kept ++ target, [], hsuffix, hfile, ?_⟩
  have hselected := (selected_iff hsne hss htne ['r'] hv hroot hst).2
    ⟨⟨[], kept⟩, rfl, ⟨[], hfile⟩, ⟨[], hfiles (kept ++ source) (by simp)⟩⟩
  have hin : [kept ++ target] ∈ ways := (hways _).2 hselected
  exact hcleared.gone (List.mem_map_of_mem hin)

/-- Cleaning removes no source if neither extension ends with the other; plain extensions of which
one ends with the other have it remove one, if files can have them. -/
theorem sources_not_removed {mode : CheckMode} {given : Value} {table : Table}
    {findings : List Finding} (hcheck : checkSettings mode given = .ok (table, findings))
    {source target : Text} (hs : (Profile.ofTable table).sourceExtension = some source)
    (ht : (Profile.ofTable table).targetExtension = some target) :
    (¬ source <:+ target → ¬ target <:+ source →
      ∀ (s t : Workspace) (request : Request) (r : Except Failure Result), s.volume.Named →
        (cleanPath request (Profile.ofTable table)).runOn s = (r, t) →
        ∀ place name, source <:+ name → s.volume.get? (place ++ [name]) ≠ none →
          t.volume.get? (place ++ [name]) ≠ none) ∧
    ((∀ c ∈ source ++ target, Path.isSeparator c = false) → Path.IsUsable (source ++ target) →
      source <:+ target ∨ target <:+ source →
      ∃ (s t : Workspace) (request : Request) (r : Result), s.volume.Tree ∧ s.faults = [] ∧
        (cleanPath request (Profile.ofTable table)).runOn s = (.ok r, t) ∧
        ∃ place name content, source <:+ name ∧
          s.volume.get? (place ++ [name]) = some (.file content) ∧
          t.volume.get? (place ++ [name]) = none) := by
  have hc := checked_of_checkSettings hcheck
  obtain ⟨source', target', hs', ht', hsh, hth, hne⟩ := hc.extensions
  obtain rfl : source = source' := Option.some.inj (hs.symm.trans hs')
  obtain rfl : target = target' := Option.some.inj (ht.symm.trans ht')
  obtain ⟨hsne, htne⟩ := hc.extensions_ne_nil hs ht
  constructor
  · intro hst hts s t request r hv h
    exact spares_cleanPath hst hts hs ht hv h
  · intro hplain husable hoverlap
    obtain ⟨kept, hnames, hsuffix⟩ := Compile.exists_stem_of_overlap hplain husable hoverlap
    exact exists_removed hc hs ht kept hsne htne hne hnames hsuffix

end Clean

end Inlay

namespace Inlay.Clean

open Inlay.Standard

/-- Two files in one folder. -/
def pair (a b : Text) : Workspace :=
  .holding [([['r']], .folder), ([['r'], a], .file []), ([['r'], b], .file [])]

theorem sources_not_removed_of_pair :
    ∃ r t, (cleanPath ⟨"clean", ['r'], none, false⟩ (Profile.ofTable Setting.defaults)).runOn
        (pair "a.tea".toList "a.php".toList) = (.ok r, t) ∧
      t.volume.get? [['r'], "a.php".toList] = none ∧
      t.volume.get? [['r'], "a.tea".toList] ≠ none := by
  have hcheck : checkSettings .lenient (.table []) = .ok (Setting.defaults, []) := rfl
  have hl : (pair "a.tea".toList "a.php".toList).volume.Leads ['r'] [['r']] :=
    ⟨by decide, by cbv⟩
  obtain ⟨r, t, ways, hrun, _, hways, _, hcleared⟩ := exists_runOn_cleanPath_tree
    (s := pair "a.tea".toList "a.php".toList) (by decide) rfl
    ⟨"clean", ['r'], none, false⟩ hl rfl (checked_of_checkSettings hcheck) rfl rfl rfl
  have hin : ["a.php".toList] ∈ ways :=
    (hways _).2 ⟨⟨[], rfl⟩, by decide, ["a.tea".toList], ⟨[], rfl⟩, by decide⟩
  refine ⟨r, t, hrun, ?_, ?_⟩
  · exact hcleared.gone (List.mem_map.2 ⟨_, hin, rfl⟩)
  · exact (sources_not_removed hcheck rfl rfl).1 (by decide) (by decide) _ t _ _ (by decide) hrun
      [['r']] "a.tea".toList (by decide) (by decide)

/-- Settings that a check accepts as they are, and a source that cleaning removes. -/
theorem exists_removed_source :
    ∃ (table : Table) (r : Result) (t : Workspace),
      checkSettings .strict (.table [(Setting.targetExtension, .text ".min.tea".toList)]) =
        .ok (table, []) ∧
      (pair "a.tea".toList "a.min.tea".toList).volume.Tree ∧
      (cleanPath ⟨"clean", ['r'], none, false⟩ (Profile.ofTable table)).runOn
        (pair "a.tea".toList "a.min.tea".toList) = (.ok r, t) ∧
      (pair "a.tea".toList "a.min.tea".toList).volume.get? [['r'], "a.min.tea".toList] =
        some (.file []) ∧
      (Profile.ofTable table).sourceExtension = some ".tea".toList ∧
      ".tea".toList <:+ "a.min.tea".toList ∧
      t.volume.get? [['r'], "a.min.tea".toList] = none := by
  have hcheck : checkSettings .strict
      (.table [(Setting.targetExtension, .text ".min.tea".toList)]) =
      .ok (Setting.defaults.set Setting.targetExtension (.text ".min.tea".toList), []) := rfl
  have hl : (pair "a.tea".toList "a.min.tea".toList).volume.Leads ['r'] [['r']] :=
    ⟨by decide, by cbv⟩
  obtain ⟨r, t, ways, hrun, _, hways, _, hcleared⟩ := exists_runOn_cleanPath_tree
    (s := pair "a.tea".toList "a.min.tea".toList) (by decide) rfl
    ⟨"clean", ['r'], none, false⟩ hl rfl (checked_of_checkSettings hcheck) rfl rfl rfl
  have hin : ["a.min.tea".toList] ∈ ways :=
    (hways _).2 ⟨⟨[], rfl⟩, by decide, ["a.tea".toList], ⟨[], rfl⟩, by decide⟩
  exact ⟨_, r, t, hcheck, by decide, hrun, rfl, rfl, by decide,
    hcleared.gone (List.mem_map.2 ⟨_, hin, rfl⟩)⟩

end Inlay.Clean
