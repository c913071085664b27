import Inlay.Codec.Utf8
import Inlay.Path.Normal
import Inlay.Volume.Basic

/-!
# From paths to places

A path is followed name by name from the root or from the current folder. Symbolic links are
followed on the way, at most forty of them, and at the end if the operation asks for it. A
separator at the end of a path asks for a folder.
-/

namespace Inlay

inductive Landing where
  | found (place : Place)
  | vacant (folder : Place) (name : Text)
  deriving DecidableEq

namespace Volume

def linkLimit : Nat := 40

/-- The names of a path, with the folder itself at the end if the path ends with a separator. -/
def steps (path : Path) : List Text :=
  Path.components path ++ if path.getLast? = some '/' then [Path.here] else []

/-- Why nothing is found below a place that is no folder. -/
def obstacle (v : Volume) (place : Place) : Errno :=
  if (v.get? place).isNone then .noEntry else .notFolder

/-- Follows names from a place. -/
def follow (v : Volume) (toEnd : Bool) (links : Nat) (here : Place) (steps : List Text) :
    Except Errno Landing :=
  match steps with
  | [] => .ok (.found here)
  | name :: rest =>
    match v.get? here with
    | some .folder =>
      if name = Path.here then v.follow toEnd links here rest
      else if name = Path.above then v.follow toEnd links here.dropLast rest
      else if Limits.exceeds v.limits.name (Utf8.encode name).length then .error .nameTooLong
      else match v.get? (here ++ [name]) with
        | none => if rest.isEmpty then .ok (.vacant here name) else .error .noEntry
        | some (.link target) =>
          if rest.isEmpty && !toEnd then .ok (.found (here ++ [name]))
          else match links with
            | 0 => .error .linkLoop
            | links + 1 =>
              let start := if target.isAbsolute then [] else here
              v.follow toEnd links start (Volume.steps target ++ rest)
        | some _ => v.follow toEnd links (here ++ [name]) rest
    | _ => .error (v.obstacle here)
termination_by (links, steps.length)

def start (v : Volume) (path : Path) : Place :=
  if path.isAbsolute then [] else v.current

/-- Where some names of a path lead; an empty path leads nowhere. -/
def locate (v : Volume) (toEnd : Bool) (path : Path) (steps : List Text) : Except Errno Landing :=
  if path.isEmpty then .error .noEntry
  else if Limits.exceeds v.limits.path (Utf8.encode path).length then .error .nameTooLong
  else v.follow toEnd linkLimit (v.start path) steps

def currentPath (v : Volume) : Path :=
  '/' :: Text.join '/' v.current

def absolute (v : Volume) (path : Path) : Path :=
  Path.absolute v.currentPath path

end Volume

end Inlay
