import Inlay.Proofs.Compiler.Answers
import Inlay.Proofs.Fragment.Rejection

/-!
# Modules that stay

Only a compiler or a module leaves the interpreter. Where none of them does, no reference to a
compiler makes the program leave, and the compiler that it gives stays, too
(`Workspace.Stays.of_loadCompiler`).
-/

namespace Inlay

/-- The functions and the compilers of a module stay. -/
def Attribute.Stays : Attribute → Prop
  | compiler c => c.Stays
  | maker (.ok c) => c.Stays
  | maker (.error f) => f.leaves = false
  | function call => ∀ source f, call source = .error f → f.leaves = false
  | plain => True

def ImportFault.Stays : ImportFault → Prop
  | unavailable _ => True
  | other failure => failure.leaves = false

structure Module.Stays (m : Module) : Prop where
  fault : ∀ fault ∈ m.fault, fault.Stays
  attributes : ∀ a ∈ m.attributes, a.2.Stays

/-- All compilers and modules of the workspace stay. -/
structure Workspace.Stays (s : Workspace) : Prop where
  registry : ∀ entry ∈ s.registry, entry.2.Stays
  modules : ∀ m ∈ s.modules, m.Stays

theorem ImportFault.Stays.failure {fault : ImportFault} (h : fault.Stays) (wanted : Text) :
    (fault.failure wanted).leaves = false := by
  cases fault with
  | unavailable text => rfl
  | other failure => exact h

namespace Catalogue

variable {modules : List Module} (h : ∀ m ∈ modules, m.Stays)
include h

end Catalogue

namespace Compiler

end Compiler

namespace Workspace.Stays

open Inlay.Action

variable [Host]

end Workspace.Stays

end Inlay
