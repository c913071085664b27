import Inlay.Compiler.Registry
import Inlay.Logging.Basic
import Inlay.Volume.Files

/-!
# Workspaces

A workspace is what commands act on: a volume with a plan of the operations that fail, variables,
known compilers and modules, logging, and the output of the program. An action changes the workspace
and gives a result or a failure; what it did before a failure stays done.
-/

namespace Inlay

inductive FileOp where
  | list
  | stat
  | read
  | write
  | remove
  /-- Making the folders around a file, as a whole. -/
  | makeParent
  /-- Making one folder. -/
  | makeFolder
  | loadSettings
  | saveSettings
  | report
  deriving DecidableEq

structure PlannedFault where
  op : FileOp
  path : Path
  errno : Errno
  /-- How often it still fails; for ever if nothing is given. -/
  left : Option Nat
  hits : Nat
  deriving DecidableEq

def PlannedFault.applies (f : PlannedFault) (op : FileOp) (path : Path) : Bool :=
  f.op == op && f.path == path && f.left != some 0

def PlannedFault.hit (f : PlannedFault) : PlannedFault :=
  { f with left := f.left.map (· - 1), hits := f.hits + 1 }

/-- The error of an operation on a path by the first plan that applies, and the plans after it. -/
def planned (op : FileOp) (path : Path) : List PlannedFault → Option Errno × List PlannedFault
  | [] => (none, [])
  | f :: rest =>
    if f.applies op path then (some f.errno, f.hit :: rest)
    else let (e, rest) := planned op path rest; (e, f :: rest)

inductive ConsoleText where
  | log (text : Text)
  | plain (text : Text)
  deriving DecidableEq

/-- What commands act on. -/
structure Workspace where
  volume : Volume
  faults : List PlannedFault
  environment : Environment
  registry : Registry
  /-- The modules that can be imported. -/
  modules : List Module
  logging : Logging
  /-- The records that passed the root logger. -/
  journal : List LogRecord
  output : Text
  console : List ConsoleText
  clock : Text

namespace Workspace

def initial (current : Place) (environment : Environment) : Workspace where
  volume := Volume.empty current
  faults := []
  environment := environment
  registry := Registry.initial
  modules := Catalogue.modules
  logging := Logging.initial
  journal := []
  output := []
  console := []
  clock := "2000-01-01 00:00:00".toList

end Workspace

/-- A step of a command. -/
abbrev Action := ExceptT Failure (StateM Workspace)

namespace Action

/-- The result of an action on a workspace, and the workspace after it. -/
def runOn {α : Type} (a : Action α) (s : Workspace) : Except Failure α × Workspace :=
  (ExceptT.run a).run s

/-- An action that cannot fail, with the result or the failure of another. -/
def attempt {α : Type} (a : Action α) : Action (Except Failure α) :=
  fun s => let (result, s') := a.runOn s; (.ok result, s')

def look {α : Type} (f : Workspace → α) : Action α := do
  return f (← get)

/-- Refuses a text that is no path. -/
def reach [Alphabet] (path : Path) : Action Unit :=
  match Path.refusal? path with
  | some refusal => throw (.noPath refusal)
  | none => pure ()

def onVolume [Alphabet] (path : Path) (f : Volume → Except Errno Volume) : Action Unit := do
  reach path
  match f (← get).volume with
  | .ok v => modify ({ · with volume := v })
  | .error e => throw (.os (.of e path))

def guard (op : FileOp) (path : Path) : Action Unit := do
  let (e?, faults) := planned op path (← get).faults
  modify ({ · with faults := faults })
  match e? with
  | some e => throw (.os (.of e path))
  | none => pure ()

def need {α : Type} (key : String) (value : Option α) : Action α :=
  match value with
  | some a => pure a
  | none => throw (.missingKey key.toList)

/-! ### Output -/

def log (level : Int) (logger message : String) : Action Unit :=
  modify fun s =>
    let record : LogRecord := ⟨level, logger, message⟩
    if s.logging.passes record then
      { s with logging := s.logging.enqueue record, journal := s.journal ++ [record] }
    else s

/-- Prints a text, all of it or nothing. -/
def print [Host] (text : String) : Action Unit :=
  match Host.printFault? text.toList with
  | some fault => throw (.codec fault)
  | none => modify fun s => { s with output := s.output ++ text.toList }

def complain (text : String) : Action Unit :=
  modify fun s => { s with console := s.console ++ [.plain text.toList] }

end Action

end Inlay
