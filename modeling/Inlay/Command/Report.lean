import Inlay.Command.Basic
import Inlay.Settings.Profile
import Inlay.Workspace.Files

/-!
# The error report

A file with a heading and one record for every failed outcome, in their order. Without failures
there is no report.
-/

namespace Inlay.Report

def logger : String := "icedtea.core.pipeline.reporting"

def rule (c : Char) : Text :=
  List.replicate 80 c ++ ['\n']

def heading : Text :=
  "ICEDTEA ERRORS REPORT:\n".toList ++ rule '='

/-- The record of an outcome, in the parts in which it is written. -/
def record (o : Outcome) : List Text :=
  ["FILE: ".toList ++ o.source ++ ['\n']] ++
    (if o.output.isEmpty then [] else ["OUTPUT: ".toList ++ o.output ++ ['\n']]) ++
    ["ERROR: ".toList ++ o.error.toList ++ ['\n'], rule '-']

def parts (outcomes : List Outcome) : List Text :=
  heading :: (outcomes.filter (!·.ok)).flatMap record

def text (outcomes : List Outcome) : Text :=
  (parts outcomes).flatten

variable [Host]

def save (path : Path) (outcomes : List Outcome) : Action Unit := do
  Action.ensureParent (← Action.absolute path)
  Action.guard .report path
  Action.writeParts path (parts outcomes)

/-- Writes the report if there are failures; the path of the report, or nothing. -/
def write (path : Path) (outcomes : List Outcome) : Action Path := do
  if outcomes.all (·.ok) then return []
  match ← Action.attempt (save path outcomes) with
  | .ok () => do
    Action.log Level.info logger s!"Error report written to '{str path}'"
    return path
  | .error (.os e) => do
    Action.log Level.error logger
      s!"Failed to persist error report to '{str path}': {e.message}"
    return []
  | .error f => throw f

def writeIfAsked (profile : Profile) (folder : Path) (outcomes : List Outcome) : Action Path := do
  if profile.saveErrorLog.getD false then
    let name ← Action.need Setting.errorLogName profile.errorLogName
    write (Path.join folder name) outcomes
  else return []

end Inlay.Report
