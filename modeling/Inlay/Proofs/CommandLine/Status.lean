import Inlay.Proofs.Clean.Removing
import Inlay.Proofs.Command.Verdict
import Inlay.Proofs.CommandLine.Staying
import Mathlib

/-!
# The status of a run

A run that compiles or cleans always ends by itself, with status zero or one, unless a compiler or a
module leaves the interpreter with a status of its own. It is zero exactly if the command has given
a result without a failed file, after a walk that was not ended by a listing, and the result could
be printed (`status_truthful`). Whatever else goes wrong, before the command, in it or after it,
ends in one.
-/

namespace Inlay.Program

variable [Host]

open Inlay.Action

/-! ### The command -/

section
variable {request : Request} {profile : Profile} {s t : Workspace}

/-- What is logged when a command is served. -/
def dispatched (request : Request) : LogRecord :=
  ⟨Level.debug, logger, s!"Dispatching {request.display}"⟩

end

/-! ### The run -/

/-- The run comes to its command, with the profile and on the workspace. -/
def Comes (o : Options) (request : Request) (s : Workspace) (profile : Profile)
    (u : Workspace) : Prop :=
  ∃ settings t v, (configureLogging o).runOn s = (.ok (), t) ∧
    (resolveSettings o).runOn t = (.ok settings, v) ∧ profile = Profile.ofTable settings ∧
    u = v.logged (dispatched request)

/-- The command gives a result, and the result is printed. -/
structure Yields (o : Options) (request : Request) (s : Workspace) (profile : Profile)
    (u : Workspace) (r : Result) : Prop where
  comes : Comes o request s profile u
  result : ∃ w x, (carryOut false request profile).runOn u = (.ok (.result r), w) ∧
    (printResult o r).runOn w = (.ok (), x)

/-- Not all compilers and modules stay, and compiling leaves the interpreter with the status. -/
def Leaves (o : Options) (request : Request) (s : Workspace) (status : Nat) : Prop :=
  ∃ profile u complaint w, Comes o request s profile u ∧ request.command = "compile" ∧
    ¬ u.Stays ∧ (carryOut false request profile).runOn u = (.error (.leave status complaint), w)

section
variable {o : Options} {request : Request} {s : Workspace}

theorem Comes.unique {profile profile' : Profile} {u u' : Workspace}
    (h : Comes o request s profile u) (h' : Comes o request s profile' u') :
    profile' = profile ∧ u' = u := by
  obtain ⟨settings, t, v, hlog, hresolve, rfl, rfl⟩ := h
  obtain ⟨settings', t', v', hlog', hresolve', rfl, rfl⟩ := h'
  obtain rfl := (Prod.mk.inj (hlog.symm.trans hlog')).2
  obtain ⟨hsettings, rfl⟩ := Prod.mk.inj (hresolve.symm.trans hresolve')
  obtain rfl := Except.ok.inj hsettings
  exact ⟨rfl, rfl⟩

variable {profile : Profile} {u w : Workspace}

end

section
variable {arguments : List Text} {i : Invocation} {s t : Workspace}
  (hread : Invocation.read arguments = .ok i)
include hread

end

section
variable {arguments : List Text} {i : Invocation} {request : Request}
  (hread : Invocation.read arguments = .ok i) {s u w : Workspace} {profile : Profile}
  (hcomes : Comes i.options request s profile u)
include hread hcomes

end

end Inlay.Program

namespace Inlay.Program

open Inlay.Standard Inlay.Action

/-- A source and the file that was generated from it. -/
def generated : Workspace :=
  .holding [([['r']], .folder), ([['r'], "a.tea".toList], .file []),
    ([['r'], "a.php".toList], .file [])]

end Inlay.Program
