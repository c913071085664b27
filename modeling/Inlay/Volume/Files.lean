import Inlay.Volume.Lookup

/-!
# Operations on a volume

Looking at, listing, reading, writing, removing and making entries by path. An operation that is
refused leaves the volume alone.
-/

namespace Inlay.Volume

/-! ### Looking -/

def stat (v : Volume) (path : Path) : Except Errno Entry :=
  match v.locate true path (steps path) with
  | .error e => .error e
  | .ok (.vacant _ _) => .error .noEntry
  | .ok (.found place) => match v.get? place with
    | some entry => .ok entry
    | none => .error .noEntry

def hasEntry (v : Volume) (path : Path) : Bool :=
  (v.stat path).toOption.isSome

def isFolder (v : Volume) (path : Path) : Bool :=
  match v.stat path with
  | .ok .folder => true
  | _ => false

def isFile (v : Volume) (path : Path) : Bool :=
  match v.stat path with
  | .ok (.file _) => true
  | _ => false

def list (v : Volume) (path : Path) : Except Errno (List Text) :=
  match v.locate true path (steps path) with
  | .error e => .error e
  | .ok (.vacant _ _) => .error .noEntry
  | .ok (.found place) => match v.get? place with
    | some .folder => .ok (v.names place)
    | _ => .error .notFolder

def read (v : Volume) (path : Path) : Except Errno Bytes :=
  match v.stat path with
  | .error e => .error e
  | .ok (.file content) => .ok content
  | .ok _ => .error .isFolder

/-! ### Writing -/

/-- The place at which a path names a file, whether it exists or not. -/
def target (v : Volume) (path : Path) : Except Errno Place :=
  if path.getLast? = some '/' then
    match v.locate true path (Path.components path).dropLast with
    | .error e => .error e
    | .ok (.vacant _ _) => .error .noEntry
    | .ok (.found folder) =>
      if v.get? folder = some .folder then .error .isFolder else .error .notFolder
  else match v.locate true path (Path.components path) with
    | .error e => .error e
    | .ok (.vacant folder name) => .ok (folder ++ [name])
    | .ok (.found place) => if v.get? place = some .folder then .error .isFolder else .ok place

def write (v : Volume) (path : Path) (content : Bytes) : Except Errno Volume :=
  (v.target path).map fun place => v.put place (.file content)

def remove (v : Volume) (path : Path) : Except Errno Volume :=
  let names := Path.components path
  match v.locate false path names with
  | .error e => .error e
  | .ok (.vacant _ _) => .error .noEntry
  | .ok (.found place) =>
    if v.get? place = some .folder then .error .isFolder
    else if path.getLast? = some '/' then .error .notFolder
    else .ok (v.erase place)

/-! ### Folders -/

def makeFolder (v : Volume) (path : Path) : Except Errno Volume :=
  match v.locate false path (Path.components path) with
  | .error e => .error e
  | .ok (.found _) => .error .taken
  | .ok (.vacant folder name) => .ok (v.put (folder ++ [name]) .folder)

/-- The folder around a path and its last component, with separators at its end left out. -/
def parentAndName (path : Path) : Path × Text :=
  if (Path.base path).isEmpty then (Path.folder (Path.folder path), Path.base (Path.folder path))
  else (Path.folder path, Path.base path)

end Inlay.Volume
