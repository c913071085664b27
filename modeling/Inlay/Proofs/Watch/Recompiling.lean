import Inlay.Command.Watch
import Inlay.Proofs.Command.Leaving
import Inlay.Proofs.Compile.Batch

/-!
# Recompiling

What a watch makes of a job. Whatever a compilation fails with is recorded, unless it leaves the
interpreter, which only its compiler can bring about. So a watch whose compiler stays has an outcome
for every job (`exists_runOn_recompile_of_stays`).
-/

namespace Inlay.Watch

variable [Host]

open Inlay.Action

/-- What a watch makes of a compilation. -/
def recorded (job : Job) : Except Failure Outcome → Except Failure Outcome
  | .ok outcome => .ok outcome
  | .error f =>
    if f.leaves then .error f else .ok (.failed job.source job.output f.message)

theorem exists_runOn_recompile_of_toOutcome {handler : Handler} {job : Job} {s t : Workspace}
    {result : Except Failure Outcome}
    (h : (Compile.toOutcome handler.compiler handler.profile job).runOn s = (result, t)) :
    ∃ u, (recompile handler job).runOn s = (recorded job result, u) := by
  unfold recompile
  rw [runOn_bind_of_ok (by rw [runOn_attempt, h])]
  cases result with
  | ok o =>
    simp only [pure_bind]
    split
    · exact ⟨_, runOn_bind_of_ok (runOn_log _ _ _ t)⟩
    · exact ⟨t, rfl⟩
  | error f =>
    cases hleaves : f.leaves with
    | true => exact ⟨t, by simp only [recorded, hleaves, if_true]; rfl⟩
    | false =>
      simp only [recorded, hleaves, Bool.false_eq_true, if_false, pure_bind]
      exact ⟨_, runOn_bind_of_ok (runOn_log _ _ _ t)⟩

/-- A recompilation ends with an outcome of its job, or its compiler has left the interpreter. -/
theorem exists_runOn_recompile (handler : Handler) (job : Job) (s : Workspace) :
    ∃ result t, (recompile handler job).runOn s = (result, t) ∧
      (∀ o, result = .ok o → o.source = job.source ∧ o.output = job.output) ∧
      ∀ f, result = .error f → f.leaves = true ∧ ¬ handler.compiler.Stays := by
  cases hrun : (Compile.compileFile handler.compiler handler.profile job).runOn s with
  | mk result t =>
    obtain ⟨u, hsettled, _⟩ := Compile.exists_runOn_toOutcome hrun
    obtain ⟨w, hrecorded⟩ := exists_runOn_recompile_of_toOutcome hsettled
    refine ⟨_, w, hrecorded, ?_⟩
    cases hs : Compile.settle job result with
    | ok o =>
      refine ⟨?_, by simp [recorded]⟩
      rintro _ ⟨⟩
      exact Compile.paths_of_settle hs
    | error f =>
      rw [hs] at hsettled
      cases hleaves : f.leaves with
      | true =>
        simp only [recorded, hleaves, if_true]
        refine ⟨by simp, ?_⟩
        rintro _ ⟨⟩
        refine ⟨hleaves, fun hc => ?_⟩
        rw [Compile.stays_toOutcome hc handler.profile job s f u hsettled] at hleaves
        simp at hleaves
      | false =>
        simp only [recorded, hleaves, Bool.false_eq_true, if_false]
        refine ⟨?_, by simp⟩
        rintro _ ⟨⟩
        exact ⟨rfl, rfl⟩

/-- If the compiler stays, there is an outcome. -/
theorem exists_runOn_recompile_of_stays {handler : Handler} (hc : handler.compiler.Stays)
    (job : Job) (s : Workspace) :
    ∃ o t, (recompile handler job).runOn s = (.ok o, t) ∧ o.source = job.source ∧
      o.output = job.output := by
  obtain ⟨result, t, hrun, hok, herror⟩ := exists_runOn_recompile handler job s
  cases result with
  | ok o => exact ⟨o, t, hrun, hok o rfl⟩
  | error f => exact absurd hc (herror f rfl).2

end Inlay.Watch
