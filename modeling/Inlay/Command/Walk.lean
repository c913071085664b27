import Inlay.Workspace.Files

/-!
# The walk

The files below a folder that exists, level by level. An entry whose state cannot be read is tried
again, taken for a file or left out, as the policy says. A folder that cannot be listed ends the
walk.
-/

namespace Inlay.Walk

variable [Alphabet]

def logger : String := "icedtea.core.walker"

/-- How often the state of an entry is read at most. -/
def attempts (policy : StatPolicy) (retries : Int) : Nat :=
  match policy with
  | .retry => 1 + (max 0 retries).toNat
  | _ => 1

/-- Reads the state of an entry up to a number of times; the first time apart from the others. -/
def statRetrying (path : Path) : (more : Nat) → Action (Except Failure Entry)
  | 0 => Action.attempt (Action.statEntry path)
  | more + 1 => do
    match ← Action.attempt (Action.statEntry path) with
    | .ok entry => pure (.ok entry)
    | .error _ => statRetrying path more

/-- Is an entry a folder? Nothing, if it is left out. -/
def classify (policy : StatPolicy) (retries : Int) (path : Path) : Action (Option Bool) := do
  match ← statRetrying path (attempts policy retries - 1) with
  | .ok entry => pure (some (entry == .folder))
  | .error f =>
    let text := (Failure.state path (some f.message)).message
    match policy with
    | .assumeFile => do
      Action.log Level.warning logger s!"{text}. Treating entry as a file."
      pure (some false)
    | _ => do
      Action.log Level.warning logger s!"{text}. Entry skipped."
      pure none

def entries (folder : Path) : Action (List Path) := do
  match ← Action.attempt (Action.listFolder folder) with
  | .ok names => pure (names.map (Path.join folder))
  | .error f => throw (.listing folder (some f.message))

/-- The files below some folders; `levels` bounds the number of levels. -/
def below (policy : StatPolicy) (retries : Int) : (levels : Nat) → List Path → Action (List Path)
  | _, [] => pure []
  | 0, _ :: _ => pure []
  | levels + 1, folder :: more => do
    let paths ← (folder :: more).flatMapM entries
    let classified ← paths.mapM fun path => do
      let isFolder ← classify policy retries path
      pure (path, isFolder)
    let pick (kind : Bool) := classified.filterMap fun (path, isFolder) =>
      if isFolder = some kind then some path else none
    let deeper ← below policy retries levels (pick true)
    pure (pick false ++ deeper)

/-- No folder is reached by more names than this: each of them enters a folder, or follows one of
the links that a way may hold, after which it can enter every folder again. -/
def depthBound (v : Volume) : Nat :=
  (Volume.linkLimit + 1) * (v.entries.length + 1)

def files (policy : StatPolicy) (retries : Int) (root : Path) : Action (List Path) := do
  let bound := depthBound (← get).volume
  below policy retries (bound + 1) [root]

def policy (name : Text) : Action StatPolicy :=
  match StatPolicy.ofName? name with
  | some policy => pure policy
  | none => throw (.unknownPolicy name)

end Inlay.Walk
