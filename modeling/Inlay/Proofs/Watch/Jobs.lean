import Inlay.Command.Watch
import Inlay.Proofs.Path.Outputs
import Inlay.Proofs.Path.Relative
import Inlay.Proofs.Workspace.Run

/-!
# What an event asks for

In a watched folder a file with new content and the source extension is compiled again. Its job is
that of the way to it from the folder, however the event spells its path (`runOn_jobOf?_of_way`).
-/

namespace Inlay.Watch

open Inlay.Action

/-- The file of an event has new content. -/
def Event.bringsFile (e : Event) : Bool :=
  !e.isFolder && e.kind.bringsContent && !e.path.isEmpty

/-! ### The way to a file -/

theorem wayBelow?_of_components {v : Volume} {folder path : Path} {way : List Text}
    (hne : way ≠ []) (hnames : ∀ n ∈ way, Path.IsName n)
    (h : Path.components (v.absolute path) = Path.components (v.absolute folder) ++ way) :
    wayBelow? v folder path = some (Text.join '/' way) := by
  have hcomp := Path.components_join (Path.isPiece_of_isName hnames)
  have habove : Path.above ∉ way := fun ha => (hnames _ ha).2.2.2 rfl
  have hfirst : ¬ (Text.join '/' way = Path.above ∨
      (Path.above ++ ['/']).isPrefixOf (Text.join '/' way) = true) := by
    rintro (he | hpre)
    · rw [he] at hcomp
      exact habove (hcomp ▸ List.mem_singleton_self _)
    · obtain ⟨rest, hrest⟩ := List.isPrefixOf_iff_prefix.1 hpre
      rw [← hrest, List.append_assoc, List.singleton_append, Path.components_append_slash] at hcomp
      exact habove (hcomp ▸ List.mem_append_left _ (List.mem_singleton_self _))
  simp only [wayBelow?, Path.relative_of_components hne h, if_neg hfirst]

/-- Strictly below a folder means a way of names, as no path in absolute form has others. -/
theorem exists_way_of_within {v : Volume} {folder path : Path}
    (h : Path.Within v.currentPath folder path) :
    ∃ way, way ≠ [] ∧ (∀ n ∈ way, Path.IsName n) ∧
      Path.components (v.absolute path) = Path.components (v.absolute folder) ++ way := by
  obtain ⟨way, hne, hway⟩ := h
  exact ⟨way, hne, fun n hn => Path.isName_of_mem_absolute rfl
    (hway ▸ List.mem_append_right _ hn), hway⟩

/-! ### Jobs -/

section
variable {handler : Handler} {event : Event} {source target : Text} {s : Workspace}
  (hs : handler.profile.sourceExtension = some source)
  (ht : handler.profile.targetExtension = some target)
include hs ht

theorem runOn_isOwnOutput (name : Text) (s : Workspace) :
    (isOwnOutput handler.profile name).runOn s =
      (.ok (Path.hasExtension name target && !Path.hasExtension name source), s) := by
  unfold isOwnOutput
  rw [runOn_bind_of_ok (runOn_need_some ht s)]
  cases Path.hasExtension name target with
  | false => rfl
  | true =>
    simp only [if_true, runOn_bind_of_ok (runOn_need_some hs s)]
    rfl

theorem runOn_jobInFolder?_of_way (hss : '/' ∉ source) {path : Path} {way : List Text}
    (hne : way ≠ []) (hnames : ∀ n ∈ way, Path.IsName n)
    (hway : Path.components (s.volume.absolute path) =
      Path.components (s.volume.absolute handler.input) ++ way) :
    (jobInFolder? handler path).runOn s =
      (.ok (if Path.hasExtension path source then some ⟨Path.descend handler.input way,
        Path.under handler.output (Path.mirrored target source way)⟩ else none), s) := by
  unfold jobInFolder?
  rw [runOn_bind_of_ok (runOn_need_some hs s)]
  cases Path.hasExtension path source with
  | false => rfl
  | true =>
    have hmirror := Path.mirror_descend hss handler.input handler.output target hne
      (Path.isPiece_of_isName hnames)
    simp only [Bool.not_true, Bool.false_eq_true, if_false, if_true,
      runOn_bind_of_ok (runOn_get s), wayBelow?_of_components hne hnames hway,
      runOn_bind_of_ok (runOn_need_some ht s), Path.join_way handler.input hne hnames, hmirror]
    rfl

theorem runOn_jobOf?_of_folder (hf : handler.isFolder = true) :
    (jobOf? handler event).runOn s =
      if event.bringsFile && !(Path.hasExtension (Path.base event.path) target &&
        !Path.hasExtension (Path.base event.path) source) then
        (jobInFolder? handler event.path).runOn s
      else (.ok none, s) := by
  have hnews : (event.isFolder || !event.kind.bringsContent || event.path.isEmpty) =
      !event.bringsFile := by simp [Event.bringsFile]
  unfold jobOf?
  rw [hnews]
  cases event.bringsFile with
  | false => rfl
  | true =>
    simp only [Bool.not_true, Bool.false_eq_true, if_false, Bool.true_and, hf, if_true,
      runOn_bind_of_ok (runOn_isOwnOutput hs ht (Path.base event.path) s)]
    cases Path.hasExtension (Path.base event.path) target &&
      !Path.hasExtension (Path.base event.path) source with
    | false => rfl
    | true => rfl

/-- A file below the folder has its job, or is no source with new content. -/
theorem runOn_jobOf?_of_way (hss : '/' ∉ source) (hf : handler.isFolder = true) {way : List Text}
    (hne : way ≠ []) (hnames : ∀ n ∈ way, Path.IsName n)
    (hway : Path.components (s.volume.absolute event.path) =
      Path.components (s.volume.absolute handler.input) ++ way) :
    (jobOf? handler event).runOn s =
      (.ok (if event.bringsFile && Path.hasExtension event.path source then
        some ⟨Path.descend handler.input way,
          Path.under handler.output (Path.mirrored target source way)⟩ else none), s) := by
  -- A name with the source extension is never taken for an own output.
  rw [runOn_jobOf?_of_folder hs ht hf, runOn_jobInFolder?_of_way hs ht hss hne hnames hway,
    Path.hasExtension_base hss]
  cases event.bringsFile <;> cases Path.hasExtension event.path source <;> simp

theorem runOn_jobOf?_of_not_source (hf : handler.isFolder = true)
    (h : Path.hasExtension event.path source = false) :
    (jobOf? handler event).runOn s = (.ok none, s) := by
  have hin : (jobInFolder? handler event.path).runOn s = (.ok none, s) := by
    unfold jobInFolder?
    rw [runOn_bind_of_ok (runOn_need_some hs s), h]
    rfl
  rw [runOn_jobOf?_of_folder hs ht hf, hin, ite_self]

/-- Strictly below the folder every event is answered, and at most with the job of the way to its
path, which has the source extension. -/
theorem exists_runOn_jobOf? (hss : '/' ∉ source) (hf : handler.isFolder = true)
    (h : Path.Within s.volume.currentPath handler.input event.path) :
    ∃ asked, (jobOf? handler event).runOn s = (.ok asked, s) ∧ ∀ job ∈ asked, ∃ way, way ≠ [] ∧
      (∀ n ∈ way, Path.IsName n) ∧ Path.hasExtension event.path source = true ∧
      Path.components (s.volume.absolute event.path) =
        Path.components (s.volume.absolute handler.input) ++ way ∧
      job = ⟨Path.descend handler.input way,
        Path.under handler.output (Path.mirrored target source way)⟩ := by
  obtain ⟨way, hne, hnames, hway⟩ := exists_way_of_within h
  refine ⟨_, runOn_jobOf?_of_way hs ht hss hf hne hnames hway, fun job hjob => ?_⟩
  simp only [Option.mem_def, Option.ite_none_right_eq_some, Option.some.injEq,
    Bool.and_eq_true] at hjob
  exact ⟨way, hne, hnames, hjob.1.2, hway, hjob.2.symm⟩

theorem mirror_of_jobInFolder? {path : Path} {job : Job} {t : Workspace}
    (h : (jobInFolder? handler path).runOn s = (.ok (some job), t)) :
    Path.mirror job.source handler.input handler.output target source = .ok job.output := by
  unfold jobInFolder? at h
  rw [runOn_bind_of_ok (runOn_need_some hs s)] at h
  split at h
  · simp at h
  rw [runOn_bind_of_ok (runOn_get s)] at h
  split at h
  · simp at h
  rw [runOn_bind_of_ok (runOn_need_some ht s)] at h
  split at h
  · next hmirror =>
    simp only [runOn_pure, Prod.mk.injEq, Except.ok.injEq, Option.some.injEq] at h
    rw [← h.1]
    exact hmirror
  · simp at h

/-- Whatever an event asks for, its output is the mirrored source. -/
theorem mirror_of_jobOf? (hf : handler.isFolder = true) {job : Job} {t : Workspace}
    (h : (jobOf? handler event).runOn s = (.ok (some job), t)) :
    Path.mirror job.source handler.input handler.output target source = .ok job.output := by
  rw [runOn_jobOf?_of_folder hs ht hf] at h
  split at h
  · exact mirror_of_jobInFolder? hs ht h
  · simp at h

end

/-! ### Handling -/

section
variable [Host] {handler : Handler} {event : Event} {s t : Workspace}

theorem runOn_handle_of_none (h : (jobOf? handler event).runOn s = (.ok none, s)) :
    (handle handler event).runOn s = (.ok none, s) := by
  unfold handle
  rw [runOn_bind_of_ok h]
  rfl

theorem runOn_handle_of_some {job : Job}
    (h : (jobOf? handler event).runOn s = (.ok (some job), s)) :
    (handle handler event).runOn s = (some <$> recompile handler job).runOn s := by
  unfold handle
  rw [runOn_bind_of_ok h, map_eq_pure_bind]

end

end Inlay.Watch
