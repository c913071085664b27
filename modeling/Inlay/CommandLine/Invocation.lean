import Inlay.Command.Basic
import Inlay.CommandLine.Arguments
import Inlay.Settings.Default

/-!
# Invocations

A command line gives options and the request of a command. Options stand before the command; a
command has operands and switches of its own.
-/

namespace Inlay

structure Options where
  compiler : Option Text
  sourceExtension : Option Text
  targetExtension : Option Text
  failFast : Bool
  errorLog : Bool
  config : Option Path
  useDefaults : Bool
  saveConfig : Bool
  /-- A log file; the empty path stands for the usual one. -/
  logFile : Option Path
  debug : Bool
  json : Bool
  deriving DecidableEq

namespace Options

def ofFindings (f : Findings) : Options where
  compiler := f.value? .compiler
  sourceExtension := f.value? .sourceExtension
  targetExtension := f.value? .targetExtension
  failFast := f.has .failFast
  errorLog := f.has .errorLog
  config := f.value? .config
  useDefaults := f.has .useDefaults
  saveConfig := f.has .saveConfig
  logFile := f.value? .logFile
  debug := f.has .debug
  json := f.has .json

def textOverride (key : String) (value : Option Text) : Table :=
  (value.map fun t => (key, Value.text t)).toList

def flagOverride (key : String) (given : Bool) : Table :=
  if given then [(key, .bool true)] else []

def overrides (o : Options) : Table :=
  textOverride Setting.compiler o.compiler ++
    textOverride Setting.sourceExtension o.sourceExtension ++
    textOverride Setting.targetExtension o.targetExtension ++
    flagOverride Setting.failFast o.failFast ++ flagOverride Setting.saveErrorLog o.errorLog

end Options

structure Invocation where
  options : Options
  request : Option Request
  deriving DecidableEq

namespace Invocation

def program : String := "icedtea"

def programVersion : String := "0.4.0"

def commands : List (String × Operands × List Switch) :=
  [ ("compile", .oneOrTwo, [.help]), ("watch", .oneOrTwo, [.help]),
    ("clean", .one, [.help, .dryRun]) ]

def mainGrammar : Grammar where
  program := program
  switches :=
    [ .help, .version, .compiler, .sourceExtension, .targetExtension, .failFast, .errorLog,
      .config, .useDefaults, .saveConfig, .logFile, .debug, .json ]
  operands := .command

/-- The request of a command, and the arguments that it leaves alone. -/
def readCommand (command : Text) (arguments : List Text) :
    Except EarlyEnd (Request × List Text) :=
  match commands.find? (·.1.toList == command) with
  | none => .error (.fault program (.unknownCommand command (commands.map (·.1))))
  | some (name, operands, switches) => do
    let grammar : Grammar := ⟨s!"{program} {name}", switches, operands⟩
    let found ← grammar.read arguments
    match found.operands with
    | [] => .error (.fault grammar.program .missingInput)
    | input :: more =>
      return (⟨name, input, more.head?, found.has .dryRun⟩, found.extras)

def read (arguments : List Text) : Except EarlyEnd Invocation := do
  let found ← mainGrammar.read arguments
  let (request, extras) ← match found.operands with
    | [] => pure (none, [])
    | command :: rest => do
      let (request, extras) ← readCommand command rest
      pure (some request, extras)
  match found.extras ++ extras with
  | [] => return ⟨.ofFindings found, request⟩
  | leftover => .error (.fault program (.unrecognized leftover))

def usage (program : String) : String :=
  s!"usage: {program}\n"

end Invocation

namespace EarlyEnd

def output : EarlyEnd → String
  | fault _ _ => ""
  | help program => Invocation.usage program
  | version => s!"{Invocation.program} {Invocation.programVersion}\n"

def errors [Alphabet] : EarlyEnd → String
  | fault program f => Invocation.usage program ++ s!"{program}: error: {f.message}\n"
  | help _ | version => ""

def status : EarlyEnd → Nat
  | fault _ _ => 1
  | help _ | version => 0

end EarlyEnd

end Inlay
