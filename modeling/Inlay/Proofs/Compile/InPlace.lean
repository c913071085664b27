import Inlay.Proofs.Compile.Batch

/-!
# Compiling in place

A folder compiled without an output folder, if each of its sources compiles. Every source gets its
file beside it, and nothing else changes (`Volume.Generated`): the folders around the files are
those of the sources.
-/

namespace Inlay

variable [Host]

namespace Volume

/-- A folder in which no file with the target extension has its source beside it. -/
structure Ungenerated (v : Volume) (place : Place) (source target : Text) : Prop where
  tree : v.Tree
  folder : v.get? place = some .folder
  plain : ∀ way entry, v.get? (place ++ way) = some entry → ∀ n ∈ way, '\\' ∉ n
  alone : ∀ (x : Stem) content, v.get? (place ++ x.way target) = some (.file content) →
    ∀ content', v.get? (place ++ x.way source) ≠ some (.file content')

/-- The volume with a new file for each of some stems, and nothing else. -/
structure Generated (v w : Volume) (place : Place) (target : Text) (xs : List Stem) : Prop where
  tree : w.Tree
  extends' : v.Extends w
  new : ∀ x ∈ xs, v.get? (place ++ x.way target) = none
  present : ∀ x ∈ xs, ∃ bytes, w.get? (place ++ x.way target) = some (.file bytes)
  kept : ∀ p, (∀ x ∈ xs, p ≠ place ++ x.way target) → w.get? p = v.get? p

variable {v w : Volume} {place : Place} {source target : Text}

/-! ### Ways of sources -/

section
variable (h : v.Ungenerated place source target) {x : Stem} {content : Bytes}
  (hx : v.get? (place ++ x.way source) = some (.file content))
include h hx

theorem Ungenerated.names : ∀ n ∈ x.way source, Path.IsName n ∧ '\\' ∉ n := fun n hn =>
  ⟨h.tree.isName_below hx n hn, h.plain _ _ hx n hn⟩

theorem Ungenerated.lead {lead : List Text} (hl : lead <+: x.folders) :
    v.get? (place ++ lead) = some .folder := by
  obtain ⟨rest, hr⟩ := hl
  have hbelow : v.get? (place ++ lead ++ (rest ++ [x.kept ++ source])) = some (.file content) := by
    rw [← hx, Stem.way, ← hr]
    simp
  exact h.tree.folder_of_below hbelow (by simp)

/-- The folders on the way to a source, those above the root included. -/
theorem Ungenerated.around {p : Place} (hp : p <+: place ++ x.folders) :
    v.get? p = some .folder := by
  rcases List.prefix_or_prefix_of_prefix hp (List.prefix_append place x.folders) with
    ⟨rest, hr⟩ | ⟨lead, hr⟩
  · by_cases hz : rest = []
    · rw [hz, List.append_nil] at hr
      rw [hr, h.folder]
    · have hplace := h.folder
      rw [← hr] at hplace
      exact h.tree.folder_of_below hplace hz
  · rw [← hr] at hp ⊢
    exact h.lead hx ((List.prefix_append_right_inj place).1 hp)

theorem Ungenerated.free (hf : v.get? (place ++ x.way target) ≠ some .folder) :
    v.get? (place ++ x.way target) = none := by
  cases hg : v.get? (place ++ x.way target) with
  | none => rfl
  | some entry =>
    cases entry with
    | file c => exact absurd hx (h.alone x c hg content)
    | folder => exact absurd hg hf
    | link path => exact absurd hg h.tree.not_link

end

/-! ### What has been added -/

section
variable {xs : List Stem} {made : List (List Text × Bytes)}
  (hmade : made.map (·.1) = xs.map (·.way target))
include hmade

omit [Host] in
theorem exists_of_mem_made {m : List Text × Bytes} (hm : m ∈ made) :
    ∃ x ∈ xs, m.1 = x.way target := by
  have hway : m.1 ∈ xs.map (·.way target) := by
    rw [← hmade]
    exact List.mem_map_of_mem hm
  obtain ⟨x, hx, he⟩ := List.mem_map.1 hway
  exact ⟨x, hx, he.symm⟩

theorem Added.generated (hadd : v.Added w place (xs.map (·.way target)) made)
    (h : v.Ungenerated place source target) (hxs : ∀ x ∈ xs,
      (∃ c, v.get? (place ++ x.way source) = some (.file c)) ∧
        v.get? (place ++ x.way target) = none) :
    v.Generated w place target xs where
  tree := hadd.tree
  extends' := hadd.extends'
  new x hx := (hxs x hx).2
  present x hx := by
    have hway : x.way target ∈ made.map (·.1) := by
      rw [hmade]
      exact List.mem_map_of_mem hx
    obtain ⟨m, hm, he⟩ := List.mem_map.1 hway
    exact ⟨m.2, by rw [← he]; exact hadd.present m hm⟩
  kept p hp := by
    cases he : w.get? p with
    | none =>
      cases hv : v.get? p with
      | none => rfl
      | some entry => simp [hadd.extends'.get? _ _ hv] at he
    | some entry =>
      rcases hadd.only p entry he with hv | ⟨hf, way, hway, hpre⟩ | ⟨m, hm, heq, _⟩
      · exact hv.symm
      · -- A folder around a file was there before, around the source.
        obtain ⟨x, hx, rfl⟩ := List.mem_map.1 hway
        obtain ⟨⟨c, hc⟩, _⟩ := hxs x hx
        rw [Stem.dropLast_way] at hpre
        rw [hf, h.around hc hpre]
      · obtain ⟨x, hx, hw⟩ := exists_of_mem_made hmade hm
        exact absurd (by rw [heq, hw]) (hp x hx)

end

/-! ### What has been made -/

theorem Generated.get?_source {xs : List Stem} (h : v.Generated w place target xs)
    (hso : ¬ source <:+ target) (hto : ¬ target <:+ source) (x : Stem) :
    w.get? (place ++ x.way source) = v.get? (place ++ x.way source) :=
  h.kept _ fun y _ he => Stem.way_ne_way hso hto x y (List.append_cancel_left he)

/-- Where a file stands beside a source, it is one of the new ones. -/
theorem Generated.pair_iff {xs : List Stem} (h : v.Generated w place target xs)
    (hso : ¬ source <:+ target) (hto : ¬ target <:+ source)
    (hxs : ∀ x, x ∈ xs ↔ ∃ c, v.get? (place ++ x.way source) = some (.file c)) (x : Stem) :
    ((∃ c, w.get? (place ++ x.way target) = some (.file c)) ∧
      ∃ c, w.get? (place ++ x.way source) = some (.file c)) ↔ x ∈ xs := by
  rw [h.get?_source hso hto, ← hxs]
  constructor
  · rintro ⟨_, hx⟩
    exact hx
  · intro hx
    exact ⟨h.present x hx, hx⟩

theorem Generated.get?_ne_iff {xs : List Stem} (h : v.Generated w place target xs) (p : Place) :
    w.get? p ≠ v.get? p ↔ ∃ x ∈ xs, p = place ++ x.way target := by
  constructor
  · intro hne
    by_contra hno
    exact hne (h.kept p fun x hx he => hno ⟨x, hx, he⟩)
  · rintro ⟨x, hx, rfl⟩
    obtain ⟨bytes, hb⟩ := h.present x hx
    rw [hb, h.new x hx]
    simp

end Volume

namespace Compile

open Inlay.Action

/-- A source compiles if it is the only one. -/
def CompilesAlone (compiler : Compiler) (profile : Profile) (s : Workspace) (input : Path)
    (source target : Text) (x : Stem) : Prop :=
  ∃ t, (compileFile compiler profile (jobOf input input target source x)).runOn s = (.ok (), t)

/-- The outcome of a source that gets its file beside it. -/
def besideOutcome (input : Path) (source target : Text) (x : Stem) : Outcome :=
  .compiled (Path.descend input (x.way source)) (Path.under input (Text.join '/' (x.way target)))

/-- After some of the sources. -/
def Beside (v : Volume) (input : Path) (place : Place) (source target : Text) (done : List Stem)
    (outcomes : List Outcome) (w : Volume) : Prop :=
  outcomes = done.map (besideOutcome input source target) ∧
    ∃ made, v.Added w place (done.map (·.way target)) made ∧
      made.map (·.1) = done.map (·.way target)

variable {compiler : Compiler} {profile : Profile} {input : Path} {place : Place}
  {source target : Text}

section
variable {s₀ : Workspace} (hv : s₀.volume.Ungenerated place source target) (hs₀ : s₀.faults = [])
  (hsource : source ≠ []) (htarget : target ≠ [] ∧ '/' ∉ target ∧ '\\' ∉ target)
  {encoding : Text} (he : profile.encoding = some encoding) (hn : Encoding.IsName encoding)
  (hi : s₀.volume.Leads input place) (hr : Path.IsRoot input)
include hv hs₀ hsource htarget he hi hr

theorem CompilesAlone.exists_compiles {x : Stem}
    (h : CompilesAlone compiler profile s₀ input source target x) {content : Bytes}
    (hx : s₀.volume.get? (place ++ x.way source) = some (.file content)) :
    ∃ codec bytes, Encoding.find? encoding = some (.text codec) ∧
      Compiles compiler profile codec (Path.descend input (x.way source)) content bytes ∧
      Path.IsName (x.kept ++ target) ∧ (∀ n ∈ x.way target, Path.IsUsable n) ∧
      s₀.volume.get? (place ++ x.way target) = none := by
  obtain ⟨t, hrun⟩ := h
  have hopen : ∀ lead, lead <+: x.folders → ¬ s₀.volume.FileAt (place ++ lead) :=
    fun lead hl hfile => hfile.not_folder (hv.lead hx hl)
  rw [jobOf_eq (hv.names hx) htarget hsource, under_way (hv.names hx) htarget hr] at hrun
  obtain ⟨codec, bytes, hc, hcompiles, hname, hu, hfolder⟩ := of_runOn_compileFile he hv.tree hs₀
    (Path.tidied_tidy input) hi.tidy hv.folder (isName_of_mem_folders (hv.names hx))
    (isPiece_output (hv.names hx) htarget).1 hopen (hv.tree.read_descend hi hx) hrun
  exact ⟨codec, bytes, hc, hcompiles, hname, hu, hv.free hx hfolder⟩

variable {xs : List Stem} (hnodup : xs.Nodup) (hxs : ∀ x ∈ xs,
  (∃ c, s₀.volume.get? (place ++ x.way source) = some (.file c)) ∧
    CompilesAlone compiler profile s₀ input source target x)
include hxs

theorem free_of_compilesAlone : ∀ x ∈ xs,
    (∃ c, s₀.volume.get? (place ++ x.way source) = some (.file c)) ∧
      s₀.volume.get? (place ++ x.way target) = none := fun x hx => by
  obtain ⟨⟨c, hc⟩, halone⟩ := hxs x hx
  obtain ⟨_, _, _, _, _, _, hfree⟩ :=
    halone.exists_compiles hv hs₀ hsource htarget he hi hr hc
  exact ⟨⟨c, hc⟩, hfree⟩

include hnodup hn

theorem Beside.exists_runOn_toOutcome {done rest : List Stem} {x : Stem}
    (heq : xs = done ++ x :: rest) {outcomes : List Outcome} {s : Workspace} (hs : s.faults = [])
    (h : Beside s₀.volume input place source target done outcomes s.volume) :
    ∃ t, (toOutcome compiler profile (jobOf input input target source x)).runOn s =
        (.ok (besideOutcome input source target x), t) ∧ t.faults = [] ∧
      Beside s₀.volume input place source target (done ++ [x])
        (outcomes ++ [besideOutcome input source target x]) t.volume := by
  have hfree := free_of_compilesAlone hv hs₀ hsource htarget he hi hr hxs
  have hnew := not_mem_of_nodup hnodup heq
  rw [heq] at hxs hfree
  obtain ⟨rfl, made, hadd, hmade⟩ := h
  obtain ⟨⟨c, hc⟩, halone⟩ := hxs x (by simp)
  obtain ⟨codec, bytes, hcodec, ⟨text, out, hd, htext, hb⟩, hname, hu, hnone⟩ :=
    halone.exists_compiles hv hs₀ hsource htarget he hi hr hc
  have hopen : ∀ lead, lead <+: x.folders → ¬ s.volume.FileAt (place ++ lead) :=
    fun lead hl hfile => hfile.not_folder (hadd.extends'.get? _ _ (hv.lead hc hl))
  have hvacant : s.volume.get? (place ++ x.way target) = none := by
    refine hadd.free hnone (fun way hway hpre => ?_) fun m hm hw => ?_
    · obtain ⟨y, hy, rfl⟩ := List.mem_map.1 hway
      obtain ⟨⟨c, hc⟩, _⟩ := hfree y (List.mem_append_left _ hy)
      rw [Stem.dropLast_way] at hpre
      rw [hv.lead hc hpre] at hnone
      simp at hnone
    · obtain ⟨y, hy, he⟩ := Volume.exists_of_mem_made hmade hm
      obtain rfl := Stem.way_injective target (hw.trans he)
      exact hnew hy
  have hstored : stored codec out = (.ok (), bytes) := by rw [stored, hb]
  obtain ⟨t, hrun, htf, hnext⟩ := exists_runOn_compileFile_added hv.tree hs hadd hi hi hv.folder
    he hn hcodec hc hu hname hopen hvacant hd htext
  rw [hstored] at hrun hnext
  have hout := runOn_toOutcome_of_ok hrun
  have hunder := under_way (hv.names hc) htarget hr
  refine ⟨t, ?_, htf, by rw [List.map_append, List.map_singleton],
    made ++ [(x.way target, bytes)], by rwa [List.map_append],
    by rw [List.map_append, List.map_append, hmade]; rfl⟩
  rw [jobOf_eq (hv.names hc) htarget hsource, besideOutcome, hunder]
  exact hout

/-- All sources one after the other, whether or not a failure would end the work. -/
theorem exists_runOn_runJobs_beside (failFast : Bool) {s : Workspace} (hs : s.faults = [])
    (hvolume : s.volume = s₀.volume) :
    ∃ outcomes t, (runJobs compiler profile failFast
        (xs.map (jobOf input input target source))).runOn s = (.ok (outcomes.map .ok), t) ∧
      t.faults = [] ∧ outcomes = xs.map (besideOutcome input source target) ∧
      s₀.volume.Generated t.volume place target xs := by
  have hstart : Beside s₀.volume input place source target [] [] s.volume :=
    ⟨rfl, [], by rw [hvolume]; exact hv.tree.added place, rfl⟩
  have hstep : ∀ done x rest outcomes s, xs = done ++ x :: rest → s.faults = [] →
      Beside s₀.volume input place source target done outcomes s.volume →
      ∃ o t, (toOutcome compiler profile (jobOf input input target source x)).runOn s =
          (.ok o, t) ∧ t.faults = [] ∧ (failFast = false ∨ o.ok = true) ∧
        Beside s₀.volume input place source target (done ++ [x]) (outcomes ++ [o]) t.volume := by
    intro done x rest outcomes s heq hs h
    obtain ⟨t, hrun, htf, hnext⟩ := h.exists_runOn_toOutcome hv hs₀ hsource htarget he hn hi hr
      hnodup hxs heq hs
    exact ⟨_, t, hrun, htf, Or.inr rfl, hnext⟩
  obtain ⟨outcomes, t, hrun, htf, hout, made, hadd, hmade⟩ := exists_runOn_runJobs _ hstep hs hstart
  exact ⟨outcomes, t, hrun, htf, hout,
    hadd.generated hmade hv (free_of_compilesAlone hv hs₀ hsource htarget he hi hr hxs)⟩

end

/-! ### The command -/

omit [Host] in
theorem runOn_outputRoot_none (path : Path) (s : Workspace) :
    (outputRoot path none).runOn s = (.ok path, s) := rfl

theorem exists_runOn_compilePath_beside {s : Workspace} {request : Request}
    (hv : s.volume.Ungenerated place source target) (hfaults : s.faults = [])
    (hi : s.volume.Leads request.input place) (hr : Path.IsRoot request.input)
    (hprofile : profile.Checked) (hs : profile.sourceExtension = some source)
    (ht : profile.targetExtension = some target) (hss : '/' ∉ source)
    (hst : '/' ∉ target ∧ '\\' ∉ target) {choice : Option Compiler}
    (hchoice : Uses profile s choice compiler) (hout : request.output = none)
    (hall : ∀ x content, s.volume.get? (place ++ x.way source) = some (.file content) →
      CompilesAlone compiler profile s request.input source target x) :
    ∃ r t xs, (compilePath request profile choice).runOn s = (.ok r, t) ∧ t.faults = [] ∧
      xs.Nodup ∧ (∀ x, x ∈ xs ↔ ∃ c, s.volume.get? (place ++ x.way source) = some (.file c)) ∧
      r.outcomes = Outcome.sort (xs.map (besideOutcome request.input source target)) ∧
      s.volume.Generated t.volume place target xs := by
  obtain ⟨encoding, he, hencoding⟩ := hprofile.encoding
  obtain ⟨failFast, hfast⟩ := hprofile.failFast
  obtain ⟨hsne, htne⟩ := hprofile.extensions_ne_nil hs ht
  obtain ⟨ways, u, hnodup, hmem, hnames, hvolume, hu, hrun⟩ := exists_runOn_compilePath hchoice
    hv.tree hfaults hi hv.folder hprofile fun t _ => by
      rw [hout]
      exact runOn_outputRoot_none request.input t
  have hxs : ∀ x, x ∈ stems source ways ↔
      ∃ c, s.volume.get? (place ++ x.way source) = some (.file c) := fun x => by
    rw [mem_stems, hmem]
  have hplan := planJobs_descend hss request.input request.input target
    (fun way hw => (hnames way hw).1) fun way hw => Path.isPiece_of_isName (hnames way hw).2
  have hsources : ∀ x ∈ stems source ways,
      (∃ c, s.volume.get? (place ++ x.way source) = some (.file c)) ∧
        CompilesAlone compiler profile s request.input source target x := fun x hx => by
    obtain ⟨c, hc⟩ := (hxs x).1 hx
    exact ⟨⟨c, hc⟩, hall x c hc⟩
  obtain ⟨outcomes, r, t, hfiles, hsort, htf, rfl, hgenerated⟩ := exists_runOn_compileFiles
    (Q := fun outcomes w =>
      outcomes = (stems source ways).map (besideOutcome request.input source target) ∧
        s.volume.Generated w place target (stems source ways))
    hprofile hs ht hfast hplan (fun outcomes w hQ => Or.inr fun o ho => by
      rw [hQ.1] at ho
      obtain ⟨x, _, rfl⟩ := List.mem_map.1 ho
      rfl)
    fun record => exists_runOn_runJobs_beside hv hfaults hsne ⟨htne, hst⟩ he hencoding hi hr
      (nodup_stems source hnodup) hsources failFast (s := u.logged record) (by simp [hu])
      (by simp [hvolume])
  exact ⟨r, t, stems source ways, hrun.trans hfiles, htf, nodup_stems source hnodup, hxs, hsort,
    hgenerated⟩

end Compile

end Inlay
