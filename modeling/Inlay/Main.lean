import Inlay.CommandLine.Program
import Inlay.Volume.Changes
import Std.Time.Zoned

/-!
# The command line program

A run sees the parts of the disk that its command line names, acts on them as a volume, and brings
the changes back. Links are seen as what they lead to. A watch looks at the disk again and again.
-/

namespace Inlay.Disk

/-! ### Reading -/

def spell (place : Place) : String :=
  str ('/' :: Text.join '/' place)

/-- The entries at a place of the disk and below it. A link to a folder around itself and what
cannot be read are left out. -/
partial def scan (around : List String) (place : Place) : IO (List (Place × Entry)) := do
  try
    let real ← IO.FS.realPath (spell place)
    if around.contains real.toString then return []
    match (← real.metadata).type with
    | .dir => do
      let mut found := [(place, Entry.folder)]
      for below in ← real.readDir do
        found := found ++ (← scan (real.toString :: around) (place ++ [below.fileName.toList]))
      return found
    | .file => do
      let content ← IO.FS.readBinFile real
      return [(place, .file (content.toList.map fun b => Utf8.byte b.toNat))]
    | _ => return []
  catch _ => return []

def scanWay (place : Place) : IO (List (Place × Entry)) := do
  let mut found := []
  for n in List.range place.length do
    let way := place.take n
    if n > 0 then
      try
        if (← (← IO.FS.realPath (spell way)).metadata).type matches .dir then
          found := found ++ [(way, Entry.folder)]
      catch _ => pure ()
  return found

def read (current : Place) (places : List Place) : IO Volume := do
  let mut v := Volume.empty current
  for place in current :: places do
    for (way, entry) in ← scanWay place do
      v := v.put way entry
  v := if current.isEmpty then v else v.put current .folder
  for place in places do
    for (found, entry) in ← scan [] place do
      if !found.isEmpty then v := v.put found entry
  return v

/-! ### Writing -/

def apply (change : Volume.Change) : IO Unit := do
  let path := spell change.1
  try
    match change.2 with
    | some (.file content) =>
      IO.FS.writeBinFile path ⟨(content.map fun b => b.val.toUInt8).toArray⟩
    | some .folder => IO.FS.createDirAll path
    | some (.link _) => pure ()
    | none => IO.FS.removeFile path
  catch e => IO.eprintln s!"{e}"

def publish (before : Volume) (after : Workspace) : IO Workspace := do
  for change in Volume.changes before after.volume do
    apply change
  IO.print (str after.output)
  (← IO.getStdout).flush
  for line in after.console do
    match line with
    | .log t | .plain t => IO.eprint (str t)
  return { after with output := [], console := [], journal := [] }

end Inlay.Disk

namespace Inlay.Program

open Inlay.Standard

/-! ### What a command line names -/

def variableNames : Text → List Text
  | [] => []
  | c :: rest =>
    (if c = '$' then ((Path.nextName? rest).map (·.1)).toList else []) ++ variableNames rest

/-- The environment of a run, as far as its command line names it. -/
def environment (arguments : List Text) : IO Environment := do
  let names := "HOME" :: (arguments.flatMap variableNames).map str
  names.filterMapM fun name => do
    return (← IO.getEnv name).map fun value => (name, value.toList)

def paths (i : Invocation) : Action (List Path) := do
  let operands := match i.request with
    | some r => r.input :: r.output.toList
    | none => []
  let settings ← settingsFile i.options
  let log ← match i.options.logFile.filter (!·.isEmpty) with
    | some path => do pure [← Home.normalize path Path.here]
    | none => pure []
  let data ← Home.data .unix false
  return data :: operands ++ settings.toList ++ log

def places (arguments : List Text) (w : Workspace) : List Place :=
  match Invocation.read arguments with
  | .error _ => []
  | .ok i => match ((paths i).runOn w).1 with
    | .error _ => []
    | .ok paths => (paths.filter (!·.isEmpty)).map fun p => Path.components (w.volume.absolute p)

/-! ### Running -/

def clock : IO Text := do
  let t ← Std.Time.PlainDateTime.now
  let pad (width : Nat) (n : Int) : String :=
    let digits := toString n
    "".pushn '0' (width - digits.length) ++ digits
  let date := s!"{pad 4 t.date.year.toInt}-{pad 2 t.date.month.val}-{pad 2 t.date.day.val}"
  let time := s!"{pad 2 t.time.hour.val}:{pad 2 t.time.minute.val}:{pad 2 t.time.second.val}"
  return s!"{date} {time}".toList

def events (before after : Volume) : List Watch.Event :=
  (Volume.changes before after).map fun (place, entry) =>
    let path := Disk.spell place
    { kind := if entry.isNone then .deleted
        else if (before.get? place).isSome then .modified else .created
      isFolder := entry == some .folder
      source := path.toList
      destination := [] }

partial def watch (subscription : Watch.Subscription) (places : List Place) (w : Workspace) :
    IO Unit := do
  IO.sleep 500
  let now ← Disk.read w.volume.current places
  let seen := { w with volume := now, clock := ← clock }
  let tell : Watch.Listener Unit := fun _ s => (.ok (), s)
  let after := (events w.volume now).foldl
    (fun w e => (Watch.receive subscription.handler tell e w).2) ⟨seen, [], ()⟩
  watch subscription places (← Disk.publish now after.workspace.drain)

end Inlay.Program

open Inlay Inlay.Standard in
def main (arguments : List String) : IO UInt32 := do
  let arguments := arguments.map (·.toList)
  let current := Path.components (← IO.currentDir).toString.toList
  let empty := Workspace.initial current (← Program.environment arguments)
  let places := Program.places arguments empty
  let volume ← Disk.read current places
  let w := { empty with volume := volume, clock := ← Program.clock }
  match (Program.start false arguments).runOn w with
  | (.ok (.watching subscription), after) => do
    Program.watch subscription places (← Disk.publish volume after.drain)
    return 0
  | (.ok (.done status), after) => do
    let _ ← Disk.publish volume after.drain
    return status.toUInt32
  | (.error _, _) => return 1
