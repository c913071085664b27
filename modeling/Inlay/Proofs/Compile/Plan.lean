import Inlay.Command.Compile
import Inlay.Proofs.Path.Outputs
import Mathlib.Data.List.Nodup

/-!
# The jobs of a walk

Of the files of a walk those with the source extension are compiled, each to its mirrored path. A
`Stem` is a file below a root without its extension, so a source and its output are one stem with
two extensions.
-/

namespace Inlay

/-- A file below a root: its folders, and its name without an extension. -/
structure Stem where
  folders : List Text
  kept : Text
  deriving DecidableEq

namespace Stem

def way (x : Stem) (extension : Text) : List Text :=
  x.folders ++ [x.kept ++ extension]

def of? (extension : Text) (way : List Text) : Option Stem :=
  match way.getLast? with
  | some name => (Text.dropSuffix? extension name).map (Stem.mk way.dropLast)
  | none => none

theorem of?_eq_some_iff {extension : Text} {way : List Text} {x : Stem} :
    of? extension way = some x ↔ way = x.way extension := by
  rcases List.eq_nil_or_concat way with rfl | ⟨lead, name, rfl⟩
  · simp [of?, Stem.way]
  · rw [List.concat_eq_append]
    simp only [of?, List.getLast?_concat, List.dropLast_concat, Option.map_eq_some_iff,
      Text.dropSuffix?_eq_some_iff]
    constructor
    · rintro ⟨kept, rfl, rfl⟩
      rfl
    · intro h
      obtain ⟨rfl, hn⟩ := List.append_inj' h rfl
      exact ⟨x.kept, by simpa using hn, rfl⟩

theorem way_injective (extension : Text) {x y : Stem} (h : x.way extension = y.way extension) :
    x = y := by
  have hx := of?_eq_some_iff.2 (rfl : x.way extension = x.way extension)
  rw [h, of?_eq_some_iff.2 rfl] at hx
  simpa using hx.symm

/-- No file is a source and an output at once. -/
theorem way_ne_way {source target : Text} (hs : ¬ source <:+ target) (ht : ¬ target <:+ source)
    (x y : Stem) : x.way source ≠ y.way target := by
  intro h
  obtain ⟨_, hn⟩ := List.append_inj' h rfl
  have hname : x.kept ++ source = y.kept ++ target := by simpa using hn
  rcases List.suffix_or_suffix_of_suffix ⟨x.kept, hname⟩ (List.suffix_append y.kept target) with
    h | h
  · exact hs h
  · exact ht h

theorem way_ne_nil (x : Stem) (extension : Text) : x.way extension ≠ [] := by
  simp [way]

theorem dropLast_way (x : Stem) (extension : Text) : (x.way extension).dropLast = x.folders := by
  rw [way, List.dropLast_concat]

end Stem

namespace Compile

def stems (extension : Text) (ways : List (List Text)) : List Stem :=
  ways.filterMap (Stem.of? extension)

/-- The job of a stem, as `planJobs` makes it. -/
def jobOf (root output : Path) (target source : Text) (x : Stem) : Job where
  source := Path.descend root (x.way source)
  output := Path.under output (Path.mirrored target source (x.way source))

theorem mem_stems {extension : Text} {ways : List (List Text)} {x : Stem} :
    x ∈ stems extension ways ↔ x.way extension ∈ ways := by
  simp only [stems, List.mem_filterMap, Stem.of?_eq_some_iff]
  constructor
  · rintro ⟨way, hm, rfl⟩
    exact hm
  · intro hm
    exact ⟨_, hm, rfl⟩

theorem nodup_stems (extension : Text) {ways : List (List Text)} (h : ways.Nodup) :
    (stems extension ways).Nodup := by
  refine List.Nodup.filterMap (fun a b x ha hb => ?_) h
  rw [Option.mem_def, Stem.of?_eq_some_iff] at ha hb
  rw [ha, hb]

/-- The sources of a plan are the files with the source extension, each with its mirrored path. -/
theorem of_planJobs {root output target source : Path} {files : List Path} {jobs : List Job}
    (h : planJobs root output target source files = .ok jobs) :
    jobs.map Job.source = files.filter (Path.hasExtension · source) ∧
      ∀ job ∈ jobs, Path.mirror job.source root output target source = .ok job.output := by
  unfold planJobs at h
  generalize files.filter (Path.hasExtension · source) = chosen at h
  induction chosen generalizing jobs with
  | nil =>
    obtain rfl := Except.ok.inj h
    exact ⟨rfl, by simp⟩
  | cons file chosen ih =>
    rw [List.mapM_cons] at h
    cases hm : Path.mirror file root output target source with
    | error m => simp [hm, Except.map, bind, Except.bind] at h
    | ok place =>
      cases hrest : chosen.mapM fun file =>
          (Path.mirror file root output target source).map (Job.mk file) with
      | error m =>
        rw [hm, hrest] at h
        simp [Except.map, bind, Except.bind] at h
      | ok rest =>
        rw [hm, hrest] at h
        obtain rfl : ⟨file, place⟩ :: rest = jobs := Except.ok.inj h
        obtain ⟨hsources, hall⟩ := ih hrest
        refine ⟨by rw [List.map_cons, hsources], fun job hjob => ?_⟩
        rcases List.mem_cons.1 hjob with rfl | hjob
        · exact hm
        · exact hall job hjob

theorem mem_planJobs_iff {root output target source : Path} {files : List Path} {jobs : List Job}
    (h : planJobs root output target source files = .ok jobs) {job : Job} :
    job ∈ jobs ↔ job.source ∈ files ∧ Path.hasExtension job.source source = true ∧
      Path.mirror job.source root output target source = .ok job.output := by
  obtain ⟨hsources, hmirror⟩ := of_planJobs h
  constructor
  · intro hjob
    have hm := List.mem_filter.1 (hsources ▸ List.mem_map_of_mem hjob)
    exact ⟨hm.1, hm.2, hmirror job hjob⟩
  · rintro ⟨hm, hext, hplace⟩
    have hin : job.source ∈ jobs.map Job.source := hsources ▸ List.mem_filter.2 ⟨hm, hext⟩
    obtain ⟨planned, hplanned, hs⟩ := List.mem_map.1 hin
    have ho := hmirror planned hplanned
    rw [hs, hplace] at ho
    obtain rfl : planned = job := by
      cases planned
      cases job
      simp_all
    exact hplanned

theorem planJobs_descend {source : Text} (hs : '/' ∉ source) (root output target : Path)
    {ways : List (List Text)} (hne : ∀ way ∈ ways, way ≠ [])
    (hw : ∀ way ∈ ways, ∀ n ∈ way, Path.IsPiece n) :
    planJobs root output target source (ways.map (Path.descend root)) =
      .ok ((stems source ways).map (jobOf root output target source)) := by
  unfold planJobs
  induction ways with
  | nil => rfl
  | cons way ways ih =>
    have hrest := ih (fun w hm => hne w (List.mem_cons_of_mem _ hm))
      fun w hm => hw w (List.mem_cons_of_mem _ hm)
    have hpieces := hw way (List.mem_cons_self ..)
    have hway := hne way (List.mem_cons_self ..)
    have hext : Path.hasExtension (Path.descend root way) source = true ↔
        (Stem.of? source way).isSome = true := by
      rcases List.eq_nil_or_concat way with rfl | ⟨lead, name, rfl⟩
      · exact absurd rfl hway
      · rw [List.concat_eq_append] at hpieces ⊢
        rw [Path.hasExtension_descend hs root lead (hpieces name (by simp))]
        simp [Path.hasExtension, Stem.of?, Text.dropSuffix?]
    rw [List.map_cons, List.filter_cons]
    cases hx : Stem.of? source way with
    | none =>
      rw [hx] at hext
      rw [if_neg (by simpa using hext), hrest, stems, stems, List.filterMap_cons_none hx]
    | some x =>
      rw [hx] at hext
      have hxw := Stem.of?_eq_some_iff.1 hx
      rw [if_pos (by simpa using hext), List.mapM_cons, hrest,
        Path.mirror_descend hs root output target hway hpieces, stems, stems,
        List.filterMap_cons_some hx, hxw]
      rfl

/-! ### Plain names -/

section
variable {source target : Text} {x : Stem} (hx : ∀ n ∈ x.way source, Path.IsName n ∧ '\\' ∉ n)
  (ht : target ≠ [] ∧ '/' ∉ target ∧ '\\' ∉ target)
include hx

theorem isName_of_mem_folders : ∀ n ∈ x.folders, Path.IsName n := fun n hn =>
  (hx n (List.mem_append_left _ hn)).1

include ht

theorem isPiece_output : Path.IsPiece (x.kept ++ target) ∧ '\\' ∉ x.kept ++ target := by
  obtain ⟨hname, hplain⟩ :=
    hx (x.kept ++ source) (List.mem_append_right _ (List.mem_singleton_self _))
  have hslash := hname.2.1
  simp only [List.mem_append, not_or] at hslash hplain
  refine ⟨⟨by simp [ht.1], ?_⟩, ?_⟩
  · simpa using ⟨hslash.1, ht.2.1⟩
  · simpa using ⟨hplain.1, ht.2.2⟩

theorem jobOf_eq (hs : source ≠ []) (root output : Path) :
    jobOf root output target source x = ⟨Path.descend root (x.way source),
      Path.under output (Text.join '/' (x.way target))⟩ := by
  obtain ⟨hname, hplain⟩ := isPiece_output hx ht
  have hfolders : ∀ n ∈ x.folders, n ≠ [] ∧ '/' ∉ n ∧ '\\' ∉ n := fun n hn => by
    obtain ⟨hn, hb⟩ := hx n (List.mem_append_left _ hn)
    exact ⟨hn.1, hn.2.1, hb⟩
  have hm := Path.mirrored_source hs x.folders hfolders ⟨hname.1, hname.2, hplain⟩
  rw [jobOf, Stem.way, hm]
  rfl

theorem under_way {output : Path} (hr : Path.IsRoot output) :
    Path.under output (Text.join '/' (x.way target)) =
      Path.descend (Path.tidy output) (x.way target) := by
  refine Path.under_join hr (x.way_ne_nil target) fun n hn => ?_
  rcases List.mem_append.1 hn with hn | hn
  · exact (isName_of_mem_folders hx n hn).isPiece
  · rw [List.mem_singleton.1 hn]
    exact (isPiece_output hx ht).1

end

end Compile

end Inlay
