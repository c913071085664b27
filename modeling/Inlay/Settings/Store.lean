import Inlay.Json.Printer
import Inlay.Logging.Record
import Inlay.Settings.Profile
import Inlay.Workspace.Home

/-!
# Keeping settings

Settings are kept in a file in the data folder, or in a given file. A file that is missing or
broken gives the defaults; of a file that can be read, the known settings count.
-/

namespace Inlay.Store

def logger : String := "icedtea.domain.config"

def version : Text := "1.0.0".toList

/-- The text with line ends of all kinds as single characters. -/
def unifyLines : Text → Text
  | [] => []
  | '\r' :: '\n' :: rest => '\n' :: unifyLines rest
  | '\r' :: rest => '\n' :: unifyLines rest
  | c :: rest => c :: unifyLines rest

/-- The settings in a file: under their own key, or the whole table. -/
def settingsIn (file : Table) : Value :=
  (file.get? "settings").getD (.table file)

/-- The known settings of a file over the defaults. -/
def merge (file : Table) : Table :=
  match settingsIn file with
  | .table given =>
    Setting.defaults.update (given.filter fun (key, _) => Setting.defaults.keys.contains key)
  | _ => Setting.defaults

variable [Host]

def target (path : Option Path) : Action Path :=
  match path.filter (!·.isEmpty) with
  | some path => pure path
  | none => Home.settingsFile

def giveUp (problem : String) : Action Table := do
  Action.log Level.warning logger s!"{problem}. Using defaults."
  pure Setting.defaults

def ofText (path : Path) (text : Text) : Action Table :=
  match Json.read Host.readDepth text with
  | .error f@(.lacks ..) =>
    giveUp s!"Configuration file '{str path}' unreadable ({f.message text})"
  | .error f => throw (.unreadable f)
  | .ok (.table file) => pure (merge file)
  | .ok _ => giveUp s!"Configuration file '{str path}' is not a JSON object"

def readFile (path : Path) : Action Text := do
  Action.guard .loadSettings path
  Action.readText path Setting.defaultEncoding

def load (path : Option Path) : Action Table := do
  let path ← target path
  if !(← get).volume.hasEntry path then
    Action.log Level.debug logger s!"No configuration file at '{str path}'. Using defaults."
    return Setting.defaults
  match ← Action.attempt (readFile path) with
  | .ok text => ofText path (unifyLines text)
  | .error (.os e) => giveUp s!"Configuration file '{str path}' unreadable ({e.message})"
  | .error f => throw f

/-- What is written for some settings: the known ones, in their usual order. -/
def payload (settings : Table) : Value :=
  .table
    [ ("version", .text version),
      ("settings", .table (Setting.defaults.map fun (key, value) =>
        (key, (settings.get? key).getD value))) ]

def save (settings : Table) (path : Option Path) : Action Path := do
  let path ← target path
  Action.ensureParent path
  Action.guard .saveSettings path
  let (parts, stop) := Json.writable (Json.pieces 0 (payload settings))
  Action.writeParts path parts
  match stop with
  | some typeName => throw (.unwritable typeName)
  | none => do
    Action.log Level.debug logger s!"Configuration saved to '{str path}'"
    return path

end Inlay.Store
