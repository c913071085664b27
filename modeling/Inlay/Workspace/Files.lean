import Inlay.Workspace.Basic

/-!
# Files as text

Reading and writing files through an encoding. The file system comes first: a missing file is
reported even if the encoding is unknown, and a file that is opened for writing is empty before
the encoding is looked at. A text that is no path is refused before that (`reach`).
-/

namespace Inlay.Action

/-! ### Reading and writing -/

section
variable [Host]

def checkName (name : Text) : Action Unit :=
  match Encoding.nameFault? name with
  | some fault => throw (.codec fault)
  | none => if name.contains '\x00' then throw .zeroInName else pure ()

def codec (name : Text) : Action Codec :=
  match Encoding.find? name with
  | some (.text codec) => pure codec
  | some .other => throw (.notTextEncoding name)
  | none => throw (.unknownEncoding name)

def readBytes (path : Path) : Action Bytes := do
  reach path
  match (← get).volume.read path with
  | .ok content => pure content
  | .error e => throw (.os (.of e path))

def readText (path : Path) (encoding : Text) : Action Text := do
  checkName encoding
  let content ← readBytes path
  let codec ← codec encoding
  match codec.decode content with
  | .ok text => pure text
  | .error f => throw (.codec f)

def writeText (path : Path) (text encoding : Text) : Action Unit := do
  checkName encoding
  onVolume path (·.write path [])
  let codec ← codec encoding
  match codec.encode text with
  | .ok content => onVolume path (·.write path content)
  | .error f => throw (.codec f)

/-- The bytes of some parts, up to the first of them that cannot be encoded. -/
def encodeParts (codec : Codec) : List Text → Option CodecFault × Bytes
  | [] => (none, [])
  | part :: rest =>
    match codec.encode part with
    | .error f => (some f, [])
    | .ok bytes => let (f?, more) := encodeParts codec rest; (f?, bytes ++ more)

/-- Writes a text part by part in the usual encoding. What stands before a part that cannot be
encoded is written. -/
def writeParts (path : Path) (parts : List Text) : Action Unit := do
  onVolume path (·.write path [])
  let (f?, content) := encodeParts .utf8 parts
  onVolume path (·.write path content)
  match f? with
  | some f => throw (.codec f)
  | none => pure ()

def readSource (path : Path) (encoding : Text) : Action Text := do
  guard .read path
  readText path encoding

def writeOutput (path : Path) (text encoding : Text) : Action Unit := do
  guard .write path
  writeText path text encoding

end

variable [Alphabet]

def removeFile (path : Path) : Action Unit :=
  onVolume path (·.remove path)

def removeOutput (path : Path) : Action Unit := do
  guard .remove path
  removeFile path

/-! ### Folders -/

/-- Passes over the error of a folder that is there already. -/
def passTaken (result : Except Failure Unit) : Action Unit :=
  match result with
  | .error (.os e) => if e.code = Errno.taken.code then pure () else throw (.os e)
  | .error f => throw f
  | .ok () => pure ()

section
variable (faulty : Bool)

/-- Makes a folder in a folder that exists. Planned faults count if it is `faulty`. -/
def makeFolder (path : Path) : Action Unit := do
  if faulty then guard .makeFolder path
  onVolume path (·.makeFolder path)

/-- Makes a folder that may be there already. -/
def addFolder (path : Path) : Action Unit := do
  match ← attempt (makeFolder faulty path) with
  | .error (.os e) => if (← get).volume.isFolder path then pure () else throw (.os e)
  | .error f => throw f
  | .ok () => pure ()

/-- Makes a folder and the folders around it. What has been made before a failure stays. -/
def makeFolders : (fuel : Nat) → Path → Action Unit
  | 0, path => addFolder faulty path
  | fuel + 1, path => do
    let (parent, name) := Volume.parentAndName path
    if parent.isEmpty ∨ name.isEmpty ∨ (← get).volume.hasEntry parent then addFolder faulty path
    else
      passTaken (← attempt (makeFolders fuel parent))
      if name = Path.here then pure () else addFolder faulty path

end

def ensureFolder (faulty : Bool) (path : Path) : Action Unit :=
  makeFolders faulty path.length path

def makeParent (path : Path) : Action Unit :=
  if (Path.folder path).isEmpty then pure () else ensureFolder true (Path.folder path)

def ensureParent (path : Path) : Action Unit := do
  guard .makeParent path
  makeParent path

/-- Makes a folder; the words of the error, if there is one. -/
def tryMakeFolder (path : Path) : Action (Option String) := do
  if path.isEmpty then return none
  match ← attempt (ensureFolder false path) with
  | .ok () => return none
  | .error (.os e) => return some e.message
  | .error f => throw f

def listFolder (path : Path) : Action (List Text) := do
  guard .list path
  match (← get).volume.list path with
  | .ok names => pure names
  | .error e => throw (.os (.of e path))

def statEntry (path : Path) : Action Entry := do
  guard .stat path
  match (← get).volume.stat path with
  | .ok entry => pure entry
  | .error e => throw (.os (.of e path))

/-! ### Absolute paths -/

/-- A path in absolute form. A relative path has none once the current folder is gone. -/
def absolute (path : Path) : Action Path := do
  let v := (← get).volume
  if path.isAbsolute ∨ v.get? v.current = some .folder then return v.absolute path
  else throw (.os ⟨Errno.noEntry.code, Errno.noEntry.text, none⟩)

end Inlay.Action
