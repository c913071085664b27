import Inlay.Text.Digit
import Inlay.Text.Quoted

/-!
# Switches

A switch begins with a hyphen. It may be shortened as long as only one switch of the grammar
begins that way, and its value may follow an equals sign. Everything after two lone hyphens is no
switch. `readArguments` says what each argument of a line is.
-/

namespace Inlay

inductive Switch where
  | help
  | version
  | compiler
  | sourceExtension
  | targetExtension
  | failFast
  | errorLog
  | config
  | useDefaults
  | saveConfig
  | logFile
  | debug
  | json
  | dryRun
  deriving DecidableEq

inductive Arity where
  | flag
  | value
  | optionalValue
  deriving DecidableEq

namespace Switch

def spellings : Switch → List String
  | help => ["-h", "--help"]
  | version => ["--version"]
  | compiler => ["--compiler"]
  | sourceExtension => ["--source-ext"]
  | targetExtension => ["--target-ext"]
  | failFast => ["--fail-fast"]
  | errorLog => ["--error-log"]
  | config => ["--config"]
  | useDefaults => ["--use-defaults"]
  | saveConfig => ["--save-config"]
  | logFile => ["--log-file"]
  | debug => ["--debug"]
  | json => ["--json"]
  | dryRun => ["--dry-run"]

def name (s : Switch) : String :=
  "/".intercalate s.spellings

def arity : Switch → Arity
  | compiler | sourceExtension | targetExtension | config => .value
  | logFile => .optionalValue
  | _ => .flag

end Switch

inductive Operands where
  | command
  | one
  | oneOrTwo
  deriving DecidableEq

structure Grammar where
  program : String
  switches : List Switch
  operands : Operands

namespace Grammar

def spellings (g : Grammar) : List (String × Switch) :=
  g.switches.flatMap fun s => s.spellings.map (·, s)

def find? (g : Grammar) (spelling : Text) : Option Switch :=
  (g.spellings.find? (·.1.toList == spelling)).map (·.2)

def completions (g : Grammar) (start : Text) : List (String × Switch) :=
  g.spellings.filter fun (spelling, _) => start.isPrefixOf spelling.toList

end Grammar

inductive UsageFault where
  | ambiguous (given : Text) (candidates : List String)
  | unexpectedValue (s : Switch) (value : Text)
  | missingValue (s : Switch)
  | unknownCommand (given : Text) (known : List String)
  | missingInput
  | unrecognized (given : List Text)
  deriving DecidableEq

def UsageFault.message [Alphabet] : UsageFault → String
  | ambiguous given candidates =>
    s!"ambiguous option: {str given} could match " ++ ", ".intercalate candidates
  | unexpectedValue s value => s!"argument {s.name}: ignored explicit argument {quoted value}"
  | missingValue s => s!"argument {s.name}: expected one argument"
  | unknownCommand given known =>
    let choices := ", ".intercalate (known.map fun c => quoted c.toList)
    s!"argument command: invalid choice: {quoted given} (choose from {choices})"
  | missingInput => "the following arguments are required: input"
  | unrecognized given => "unrecognized arguments: " ++ " ".intercalate (given.map str)

/-! ### Arguments -/

inductive ArgumentKind where
  /-- Two hyphens, after which nothing is a switch. -/
  | divider
  | operand
  | switch (s : Switch) (value : Option Text)
  | unknown
  deriving DecidableEq

structure Argument where
  text : Text
  kind : ArgumentKind
  deriving DecidableEq

def Argument.dividerText : Text := ['-', '-']

/-- Is a text a run of decimal digits, possibly with a point in it or in front? -/
def isUnsignedNumber (text : Text) : Bool :=
  match Text.cutFirst ['.'] text with
  | none => !text.isEmpty && text.all isDecimal
  | some (whole, part) => whole.all isDecimal && !part.isEmpty && part.all isDecimal

/-- Is a text a negative number? A line end may follow it. -/
def isNegativeNumber (text : Text) : Bool :=
  match text with
  | '-' :: rest => isUnsignedNumber (if rest.getLast? = some '\n' then rest.dropLast else rest)
  | _ => false

def splitSwitch (text : Text) : Text × Option Text :=
  match Text.cutFirst ['='] text with
  | some (spelling, value) => (spelling, some value)
  | none => (text, none)

namespace Grammar

/-- The switches that an argument may stand for, each with its spelling and value. More letters
after a switch of one letter are not looked at. -/
def candidates (g : Grammar) (text : Text) : List (String × Switch × Option Text) :=
  let (spelling, value) := splitSwitch text
  match g.find? text, g.find? spelling with
  | some s, _ => [(str text, s, none)]
  | none, some s => [(str spelling, s, value)]
  | none, none =>
    if Argument.dividerText.isPrefixOf text then
      (g.completions spelling).map fun (full, s) => (full, s, value)
    else
      let tail := text.drop 2
      let value := if tail.head? = some '-' then some tail else none
      ((g.find? (text.take 2)).map fun s => (str (text.take 2), s, value)).toList

def kindOf (g : Grammar) (text : Text) : Except UsageFault ArgumentKind :=
  if text.length < 2 ∨ text.head? ≠ some '-' then .ok .operand
  else match g.candidates text with
    | [] => .ok (if isNegativeNumber text ∨ text.contains ' ' then .operand else .unknown)
    | [(_, s, value)] => .ok (.switch s value)
    | several => .error (.ambiguous text (several.map (·.1)))

def readArguments (g : Grammar) : List Text → Except UsageFault (List Argument)
  | [] => .ok []
  | text :: rest =>
    if text = Argument.dividerText then
      .ok (⟨text, .divider⟩ :: rest.map fun t => ⟨t, .operand⟩)
    else do
      let kind ← g.kindOf text
      let more ← g.readArguments rest
      return ⟨text, kind⟩ :: more

end Grammar

end Inlay
