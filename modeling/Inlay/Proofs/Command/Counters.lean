import Inlay.Command.Basic
import Mathlib.Data.List.Basic

/-!
# Counters of a result

A command that does one thing with its files counts each of them once: under what it does, or as an
error (`count_add_errors`).
-/

namespace Inlay.Result

/-- What has worked is counted under an action, and all else as errors. -/
def CountsAs (action : String) (o : Outcome) : Prop :=
  counter? o = some (if o.ok then action else "errors")

variable {action : String} {outcomes : List Outcome}

theorem count_errors (hne : action ≠ "errors") (h : ∀ o ∈ outcomes, CountsAs action o) :
    count outcomes "errors" = outcomes.countP (!·.ok) := by
  refine List.countP_congr fun o ho => ?_
  rw [h o ho]
  cases o.ok <;> simp [hne]

theorem count_add_errors (hne : action ≠ "errors") (h : ∀ o ∈ outcomes, CountsAs action o) :
    count outcomes action + count outcomes "errors" = outcomes.length := by
  have hcount : count outcomes action = outcomes.countP (·.ok) := by
    refine List.countP_congr fun o ho => ?_
    rw [h o ho]
    cases o.ok <;> simp [hne.symm]
  rw [hcount, count_errors hne h]
  simpa using (List.length_eq_countP_add_countP Outcome.ok).symm

theorem count_errors_eq_zero_iff (hne : action ≠ "errors") (h : ∀ o ∈ outcomes, CountsAs action o) :
    count outcomes "errors" = 0 ↔ ∀ o ∈ outcomes, o.ok = true := by
  rw [count_errors hne h, List.countP_eq_zero]
  simp

end Inlay.Result
