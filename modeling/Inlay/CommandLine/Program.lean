import Inlay.Command.Clean
import Inlay.Command.Watch
import Inlay.CommandLine.Invocation
import Inlay.Json.Printer
import Inlay.Settings.Store
import Inlay.Workspace.Logs

/-!
# The program

A run reads the command line, configures logging, resolves the settings and carries out the
command. It ends with a status, or goes on watching until somebody stops it (`start`, `finish`).
A failure that nobody else has dealt with is reported at last (`supervise`). Compilers and modules
may also leave the interpreter with a status of their own.
-/

namespace Inlay.Program

def logger : String := "icedtea.interface.cli.app"

def supervisor : String := "icedtea.supervisor"

def success : Nat := 0

def failure : Nat := 1

def interruption : Nat := 130

inductive Progress where
  | done (status : Nat)
  | watching (subscription : Watch.Subscription)

variable [Host]

/-! ### Before the command -/

def logFile (o : Options) : Action (Option Path) :=
  match o.logFile with
  | none => pure none
  | some [] => do return some (← Home.logFile "icedtea.log".toList)
  | some path => do return some (← Home.normalize path Path.here)

def configureLogging (o : Options) : Action Unit := do
  let file ← logFile o
  let level := Level.name (if o.debug then Level.debug else Level.info)
  Action.configureLogging { LogConfig.usual with level := level.toList, file := file } false

def settingsFile (o : Options) : Action (Option Path) :=
  match o.config.filter (!·.isEmpty) with
  | none => pure none
  | some path => do return some (← Home.normalize path (← Home.settingsFile))

def saveSettings (settings : Table) (path : Option Path) : Action Unit := do
  match ← Action.attempt (Store.save settings path) with
  | .ok written => Action.log Level.info logger s!"Configuration saved to '{str written}'"
  | .error (.os e) => Action.log Level.error logger s!"Failed to save configuration: {e.message}"
  | .error f => throw f

/-- The settings of a run: what the options give over what is saved, checked leniently. -/
def resolveSettings (o : Options) : Action Table := do
  let path ← settingsFile o
  let saved ← if o.useDefaults then pure Setting.defaults else Store.load path
  match checkSettings .lenient (.table (saved.update o.overrides)) with
  | .error f => throw (.settings f)
  | .ok (settings, findings) => do
    for finding in findings do
      Action.log Level.warning logger s!"Configuration Constraint: {finding.warning}"
    if o.saveConfig then saveSettings settings path
    return settings

/-! ### The command -/

inductive Answer where
  | result (r : Result)
  | watching (subscription : Watch.Subscription)
  | interrupted

def carryOut (interrupted : Bool) (request : Request) (profile : Profile) : Action Answer := do
  let compiler ←
    if request.command = "clean" then pure none
    else some <$> loadCompiler (← Action.need Setting.compiler profile.compiler)
  if request.command = "watch" then
    let subscription ← Watch.watchPath request profile compiler
    Action.print s!"Watching {str request.input}. Press Ctrl-C to stop.\n"
    return .watching subscription
  else if interrupted then return .interrupted
  else if request.command = "compile" then
    return .result (← Compile.compilePath request profile compiler)
  else return .result (← Clean.cleanPath request profile)

/-! ### After the command -/

def printFiles (r : Result) : Action Unit := do
  if r.command = "clean" then
    let pretended := ((r.summary.get? "dry_run").map (·.isSet)).getD false
    let verb := if pretended then "Would delete" else "Deleted"
    let removed := r.outcomes.filter (·.ok)
    for o in removed do
      Action.print s!"  - {verb}: {str o.output}\n"
    Action.print s!"{verb}: {removed.length} file(s)\n"
  else
    let compiled := (r.summary.get? "compiled").getD (.int 0)
    Action.print s!"Output: {str r.output}\n"
    Action.print s!"Files compiled: {compiled.display}\n"

def printFailures (r : Result) : Action Unit := do
  let errors := (r.summary.get? "errors").getD (.int 0)
  if errors.isSet then
    Action.complain s!"Errors: {errors.display}\n"
    for o in r.failures do
      Action.complain s!"  - {str o.source}: {o.error}\n"

def printSummary (r : Result) : Action Unit := do
  printFiles r
  printFailures r
  match r.summary.get? "error_report" with
  | some (.text report) =>
    if !report.isEmpty then Action.print s!"Error report: {str report}\n"
  | _ => pure ()
  if !r.ok && !r.error.isEmpty then Action.complain s!"ERROR: {r.error}\n"

def printResult (o : Options) (r : Result) : Action Unit :=
  if o.json then Action.print (str (Json.print r.value).1 ++ "\n") else printSummary r

def reportFailure (command : String) (f : Failure) : Action Unit := do
  if f.isRefusal then
    Action.log Level.error logger f.message
    Action.complain s!"ERROR: {f.message}\n"
  else
    let text := s!"{command} failed: {f.message}"
    Action.log Level.critical logger text
    Action.complain s!"ERROR: {text}\n"

def supervise (f : Failure) : Action Unit := do
  Action.log Level.critical supervisor s!"FATAL EXCEPTION DETECTED: {f.message}\n{f.report}"
  let rule := str (Report.rule '=')
  Action.complain s!"\n{rule}CRITICAL ERROR (ICEDTEA CLI)\n{rule}{f.report}\n"

/-! ### The run -/

def serve (interrupted : Bool) (o : Options) (request : Request) (settings : Table) :
    Action Progress := do
  Action.log Level.debug logger s!"Dispatching {request.display}"
  match ← Action.attempt (carryOut interrupted request (Profile.ofTable settings)) with
  | .ok (.result r) => do
    printResult o r
    return .done (if r.ok then success else failure)
  | .ok (.watching subscription) => return .watching subscription
  | .ok .interrupted => do
    Action.log Level.warning logger "Interrupted by user."
    Action.complain "Interrupted.\n"
    return .done interruption
  | .error f =>
    if f.leaves then throw f
    else do
      reportFailure request.command f
      return .done failure

def refuseNoCommand : Action Progress := do
  let text := s!"Invalid command: {Value.null.display}"
  Action.log Level.error logger text
  Action.complain (s!"ERROR: {text}\n" ++ Invocation.usage Invocation.program)
  return .done failure

def invoke (interrupted : Bool) (i : Invocation) : Action Progress := do
  configureLogging i.options
  match i.request with
  | none => refuseNoCommand
  | some request => do
    let settings ← resolveSettings i.options
    serve interrupted i.options request settings

def obey (interrupted : Bool) (arguments : List Text) : Action Progress :=
  match Invocation.read arguments with
  | .error e => do
    Action.print e.output
    throw (.leave e.status e.errors)
  | .ok i => invoke interrupted i

/-- The run up to its end or to the watch. Whoever leaves the interpreter says with which status. -/
def start (interrupted : Bool) (arguments : List Text) : Action Progress := do
  match ← Action.attempt (obey interrupted arguments) with
  | .ok progress => return progress
  | .error (.leave status complaint) => do
    Action.complain complaint
    return .done status
  | .error f => do
    supervise f
    return .done failure

/-- Ends a run that is watching; the user interrupts a watch that has not been stopped. -/
def finish (subscription : Watch.Subscription) : Action Nat := do
  if !subscription.stopped then
    Action.log Level.info logger "Watch interrupted by user."
  let _ ← subscription.stop
  return success

end Inlay.Program
