import Inlay.Workspace.Basic
import Inlay.Workspace.Files

/-!
# Writing logs

Records wait in queues until they are delivered: to the error stream, and to log files, which are
put aside when they grow too large.
-/

namespace Inlay

namespace Volume

/-- The volume with a file that may be appended to: an old one, or a new one. -/
def openForAppend (v : Volume) (path : Path) : Except Errno Volume :=
  (v.target path).map fun place => match v.get? place with
    | some (.file _) => v
    | _ => v.put place (.file [])

/-- The volume with more at the end of a file; what is written to a removed file is lost. -/
def append (v : Volume) (path : Path) (more : Bytes) : Volume :=
  match v.read path with
  | .ok content => (v.write path (content ++ more)).toOption.getD v
  | .error _ => v

def moveFile (v : Volume) (source path : Path) : Volume :=
  match v.read source, v.remove source with
  | .ok content, .ok w => (w.write path content).toOption.getD v
  | _, _ => v

end Volume

namespace LogFile

variable [Alphabet]

def old (file : LogFile) (age : Nat) : Path :=
  file.path ++ '.' :: (toString age).toList

/-- The volume after all old files have become older by one. -/
def shift (file : LogFile) : (ages : Nat) → Volume → Volume
  | 0, v => v.moveFile file.path (file.old 1)
  | age + 1, v => file.shift age (v.moveFile (file.old (age + 1)) (file.old (age + 2)))

def putAside (file : LogFile) (v : Volume) : Volume :=
  let v := if file.backups = 0 then v else file.shift (file.backups - 1) v
  (v.openForAppend file.path).toOption.getD v

def isFull (file : LogFile) (v : Volume) (line : Text) : Bool :=
  match v.read file.path with
  | .ok content =>
    decide (0 < file.maxBytes) && decide (file.maxBytes ≤ content.length + line.length)
  | .error _ => false

/-- The volume with one more line in a log file. A line that cannot be encoded is lost. -/
def write (file : LogFile) (time : Text) (record : LogRecord) (v : Volume) : Volume :=
  let line := file.template.render time record ++ ['\n']
  let v := if file.isFull v line then file.putAside v else v
  match Codec.utf8.encode line with
  | .ok bytes => v.append file.path bytes
  | .error _ => v

end LogFile

namespace Workspace

variable [Alphabet]

def clockFormat : Text := "%Y-%m-%d %H:%M:%S".toList

def deliver (s : Workspace) (delivery : LogRecord × LogTarget) : Workspace :=
  let (record, target) := delivery
  match target with
  | .console template =>
    let line := template.render s.clock record ++ ['\n']
    { s with console := s.console ++ [.log line] }
  | .file file =>
    let time := if file.timeFormat = clockFormat then s.clock else file.timeFormat
    { s with volume := file.write time record s.volume }

def drain (s : Workspace) : Workspace :=
  let (out, logging) := s.logging.deliveries
  out.foldl deliver { s with logging := logging }

end Workspace

structure LogConfig where
  level : Text
  console : Bool
  file : Option Path
  maxBytes : Int
  backups : Int
  consoleFormat : Text
  fileFormat : Text
  timeFormat : Text

namespace LogConfig

def usual : LogConfig where
  level := "INFO".toList
  console := true
  file := none
  maxBytes := 1024 * 1024
  backups := 3
  consoleFormat := "%(levelname)s | %(message)s".toList
  fileFormat := "%(asctime)s | %(levelname)s | %(name)s | %(message)s".toList
  timeFormat := Workspace.clockFormat

end LogConfig

namespace Action

variable [Host]

def logTemplate (format : Text) : Action LogTemplate :=
  match LogTemplate.ofFormat? format with
  | some template => pure template
  | none => throw (.badValue s!"Invalid format '{str format}' for '%' style")

/-- Opens a log file for more lines, in folders that are made for it. -/
def openLog (path : Path) : Action Path := do
  let full ← absolute path
  ensureFolder false (Path.folder full)
  onVolume full (·.openForAppend full)
  return full

/-- A log file as it is configured. An error of the file system is only complained about. -/
def openLogFile (config : LogConfig) (path : Path) : Action (Option LogFile) := do
  let template ← logTemplate config.fileFormat
  match ← attempt (openLog path) with
  | .ok full =>
    return some
      { path := full
        template := template
        timeFormat := config.timeFormat
        maxBytes := config.maxBytes
        backups := config.backups.toNat }
  | .error (.os e) => do
    complain s!"WARNING: Cannot open log file '{str path}': {e.message}\n"
    return none
  | .error f => throw f

def consoleSinks (config : LogConfig) (level : Int) : Action (List LogSink) :=
  if config.console then do return [⟨level, .console (← logTemplate config.consoleFormat)⟩]
  else pure []

def fileSinks (config : LogConfig) (level : Int) : Action (List LogSink) :=
  match config.file.filter (!·.isEmpty) with
  | none => pure []
  | some path => do return ((← openLogFile config path).map fun f => ⟨level, .file f⟩).toList

/-- Sets up logging, if it is not configured yet or has to be configured again. What was set up
before is taken down first; without sinks logging is not marked as configured anew. -/
def configureLogging (config : LogConfig) (force : Bool) : Action Unit := do
  let logging ← look (·.logging)
  if logging.configured && !force then return
  modify Workspace.drain
  let level := Level.parse config.level
  modify fun s => { s with logging := s.logging.clear level }
  let console ← consoleSinks config level
  let file ← fileSinks config level
  let sinks := console ++ file
  if sinks.isEmpty then return
  modify fun s => { s with logging := s.logging.listen sinks }

def shutDownLogging : Action Unit :=
  modify fun s => let s := s.drain; { s with logging := s.logging.shutDown }

end Action

end Inlay
