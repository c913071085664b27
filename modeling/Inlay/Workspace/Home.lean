import Inlay.Workspace.Files

/-!
# Where the program keeps its own files

The data folder lies in the home directory, or in the local application data where a system has
such a variable.
-/

namespace Inlay

inductive HomeStyle where
  | unix
  | localData
  deriving DecidableEq

namespace Home

def lookUp? (environment : Environment) (name : String) : Option Text :=
  (environment.lookup name).filter (!·.isEmpty)

def dataFolder (style : HomeStyle) (environment : Environment) : Path :=
  let base := match style with
    | .unix => none
    | .localData => (lookUp? environment "LOCALAPPDATA").or (lookUp? environment "APPDATA")
  match base with
  | some base => Path.join base "IcedTea".toList
  | none => Path.join (Path.expandHome environment ['~']) ".icedtea".toList

variable [Host]

/-- The data folder in absolute form; it is made if that is asked for. -/
def data (style : HomeStyle) (make : Bool) : Action Path := do
  let folder := dataFolder style (← get).environment
  if make then
    let _ ← Action.tryMakeFolder folder
  Action.absolute folder

def settingsFile : Action Path := do
  return Path.join (← data .unix false) "config.json".toList

def logFile (name : Text) : Action Path := do
  return Path.join (Path.join (← data .unix true) "logs".toList) name

/-- A path in absolute form after the expansion of the home directory and of variables; a blank
path stands for another one. -/
def normalize (path fallback : Text) : Action Path := do
  let s ← get
  let given := Text.strip path
  let chosen := if given.isEmpty then fallback else given
  Action.absolute (Path.expandVariables s.environment (Path.expandHome s.environment chosen))

end Home

end Inlay
