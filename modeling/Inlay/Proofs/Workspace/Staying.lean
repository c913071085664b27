import Inlay.Proofs.Workspace.Results
import Inlay.Workspace.Home

/-!
# What stays

The operations on files and texts fail in many ways, but none of them leaves the interpreter
(`Stays`). What is put together from them does not leave it either.
-/

namespace Inlay

namespace Action

variable {α : Type}

/-- The action does not leave the interpreter. -/
abbrev Stays (a : Action α) : Prop := Throws (fun f => f.leaves = false) a

theorem stays_log (level : Int) (logger message : String) : Stays (log level logger message) :=
  throws_of_succeeds (succeeds_log level logger message)

theorem stays_need (key : String) (value : Option α) : Stays (need key value) := by
  cases value with
  | none => exact throws_throw rfl
  | some x => exact throws_pure x

theorem stays_guard (op : FileOp) (path : Path) : Stays (guard op path) :=
  throws_guard (fun _ => rfl) op path

section
variable [Alphabet]

theorem stays_onVolume (path : Path) (f : Volume → Except Errno Volume) :
    Stays (onVolume path f) :=
  throws_onVolume (fun _ => rfl) (fun _ _ => rfl) f

theorem stays_ensureParent (path : Path) : Stays (ensureParent path) :=
  throws_ensureParent (fun _ => rfl) fun _ _ => rfl

end

/-! ### Texts -/

variable [Host]

theorem stays_checkName (name : Text) : Stays (checkName name) := by
  unfold checkName
  split
  · exact throws_throw rfl
  · split
    · exact throws_throw rfl
    · exact throws_pure _

theorem stays_codec (name : Text) : Stays (Action.codec name) := by
  unfold Action.codec
  split
  · exact throws_pure _
  · exact throws_throw rfl
  · exact throws_throw rfl

theorem stays_readBytes (path : Path) : Stays (readBytes path) := by
  have hreach : Stays (reach path) := by
    unfold reach
    split
    · exact throws_throw rfl
    · exact throws_pure _
  unfold readBytes
  refine throws_bind hreach fun _ => throws_bind throws_get fun s => ?_
  split
  · exact throws_pure _
  · exact throws_throw rfl

theorem stays_readText (path : Path) (encoding : Text) : Stays (readText path encoding) := by
  unfold readText
  refine throws_bind (stays_checkName _) fun _ => throws_bind (stays_readBytes _) fun content =>
    throws_bind (stays_codec _) fun codec => ?_
  split
  · exact throws_pure _
  · exact throws_throw rfl

theorem stays_readSource (path : Path) (encoding : Text) : Stays (readSource path encoding) :=
  throws_bind (stays_guard _ _) fun _ => stays_readText path encoding

theorem stays_writeOutput (path : Path) (text encoding : Text) :
    Stays (writeOutput path text encoding) := by
  unfold writeOutput writeText
  refine throws_bind (stays_guard _ _) fun _ => throws_bind (stays_checkName _) fun _ =>
    throws_bind (stays_onVolume _ _) fun _ => throws_bind (stays_codec _) fun codec => ?_
  split
  · exact stays_onVolume _ _
  · exact throws_throw rfl

end Action

/-! ### The home of the program -/

namespace Home

open Inlay.Action

variable [Host]

end Home

end Inlay
