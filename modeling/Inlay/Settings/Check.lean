import Inlay.Host
import Inlay.Number.Reading
import Inlay.Settings.Default
import Inlay.Text.Case
import Inlay.Text.Digit

/-!
# Checking settings

`check` turns any value into a table of settings in which every known setting has its type and a
legal value. In lenient mode what is wrong is replaced and reported; in strict mode the first
wrong setting is refused. Settings that are not known are kept.
-/

namespace Inlay

inductive Finding where
  | notTable (typeName : String)
  | wrongText (key : String) (typeName : String)
  | wrongFlag (key : String) (typeName : String)
  | wrongCount (key : String) (value : Value)
  | flagFromNumber (key : String) (value : Value)
  | flagFromText (key : String) (text : Text) (flag : Bool)
  | countFromText (key : String) (text : Text)
  | noPoint (key : String) (extension : Text)
  | sameExtensions
  | unknownEncoding (name : Text)
  | unknownPolicy (name : Text)

namespace Finding

variable [Alphabet]

def refusal : Finding → String
  | notTable typeName => s!"Invalid config type: expected dict, received {typeName}."
  | wrongText key typeName => s!"Invalid field '{key}': expected str, received {typeName}."
  | wrongFlag key typeName => s!"Invalid field '{key}': expected bool, received {typeName}."
  | wrongCount key value =>
    s!"Invalid field '{key}': expected non-negative int, received {value.display}."
  | flagFromNumber key value => s!"Field '{key}' converted from number {value.display} to bool."
  | flagFromText key text flag =>
    s!"Field '{key}' converted from '{str text}' to {Value.displayBool flag}."
  | countFromText key text => s!"Field '{key}' converted from '{str text}' to int."
  | noPoint key extension => s!"Invalid {key} '{str extension}': must start with '.'."
  | sameExtensions => "Source and target extensions must differ."
  | unknownEncoding name => s!"Unknown encoding '{str name}'."
  | unknownPolicy name =>
    let policies := quotedList (StatPolicy.all.map (·.name.toList))
    s!"Invalid stat_failure_policy '{str name}': expected one of {policies}."

def warning : Finding → String
  | notTable typeName => (notTable typeName).refusal ++ " Using defaults."
  | wrongText key typeName => (wrongText key typeName).refusal ++ " Using fallback."
  | wrongFlag key typeName => (wrongFlag key typeName).refusal ++ " Using fallback."
  | wrongCount key value => (wrongCount key value).refusal ++ " Using fallback."
  | flagFromNumber key value => (flagFromNumber key value).refusal
  | flagFromText key text flag => (flagFromText key text flag).refusal
  | countFromText key text => (countFromText key text).refusal
  | noPoint _ extension => s!"Extension '{str extension}' corrected to '.{str extension}'."
  | sameExtensions => sameExtensions.refusal ++ " Restoring defaults."
  | unknownEncoding name =>
    (unknownEncoding name).refusal ++ s!" Using '{str Setting.defaultEncoding}'."
  | unknownPolicy name => (unknownPolicy name).refusal ++ s!" Using '{StatPolicy.skip.name}'."

def isTypeFault : Finding → Bool
  | notTable _ | wrongText _ _ | wrongFlag _ _ | wrongCount _ _ => true
  | _ => false

end Finding

inductive SettingsFault where
  | refused (finding : Finding)
  | notDecimal (digits : Text)
  | hugeCount (digits : Nat)
  /-- What was given for a count cannot even be displayed. -/
  | undisplayable (fault : Value.DisplayFault)
  | unencodableName (fault : CodecFault)
  | zeroInName

namespace SettingsFault

def message [Alphabet] : SettingsFault → String
  | refused finding => finding.refusal
  | notDecimal digits =>
    "invalid literal for int() with base 10: " ++ str ((Quoted.encode digits).take 200)
  | hugeCount digits => hugeMessage digits
  | undisplayable fault => fault.message
  | unencodableName fault => fault.message
  | zeroInName => "embedded null character"

end SettingsFault

inductive CheckMode where
  | lenient
  | strict
  deriving DecidableEq

/-- A step of a check: it may report findings or give up. -/
abbrev Checking := StateT (List Finding) (Except SettingsFault)

namespace Check

variable [Host]

def note (finding : Finding) : Checking Unit :=
  modify (· ++ [finding])

/-- Notes what is wrong, or refuses it in strict mode. -/
def wrong (mode : CheckMode) (finding : Finding) : Checking Unit :=
  match mode with
  | .lenient => note finding
  | .strict => throw (.refused finding)

def field (table : Table) (key : String) : Value :=
  (table.get? key).getD .null

/-- A text without blanks at its ends; blank texts and missing ones give the default. -/
def asText (mode : CheckMode) (key : String) (value : Value) : Checking Text :=
  match value with
  | .null => pure (Setting.defaultText key)
  | .text t =>
    let t := Text.strip t
    pure (if t.isEmpty then Setting.defaultText key else t)
  | value => do
    wrong mode (.wrongText key value.typeName)
    pure (Setting.defaultText key)

def flagOfNumber? : Value → Option Bool
  | .int n => if n = 0 then some false else if n = 1 then some true else none
  | .real x => if x.isZero then some false else if x.isOne then some true else none
  | _ => none

def flagOfWord? (word : Text) : Option Bool :=
  let word := str (Text.lower (Text.strip word))
  if ["true", "1", "yes", "y", "on"].contains word then some true
  else if ["false", "0", "no", "n", "off"].contains word then some false
  else none

/-- The flag that a value stands for in lenient mode, and what is noted about it. -/
def convertFlag? (key : String) (value : Value) : Option (Finding × Bool) :=
  match value with
  | .text t => (flagOfWord? t).map fun flag => (.flagFromText key t flag, flag)
  | value => (flagOfNumber? value).map fun flag => (.flagFromNumber key value, flag)

def asFlag (mode : CheckMode) (key : String) (value : Value) : Checking Bool :=
  match value with
  | .bool b => pure b
  | .null => pure false
  | value =>
    match if mode = .lenient then convertFlag? key value else none with
    | some (finding, flag) => do
      note finding
      pure flag
    | none => do
      wrong mode (.wrongFlag key value.typeName)
      pure false

def countOfDigits (digits : Text) : Except SettingsFault Nat :=
  let run := digits.takeWhile isDecimal
  if run.length > digitLimit then .error (.hugeCount run.length)
  else if run.length < digits.length then .error (.notDecimal digits)
  else .ok (decimalNumber digits)

def isDigits (text : Text) : Bool :=
  !text.isEmpty && text.all isDigit

/-- Refuses a value for a count, which is displayed for that. -/
def refuseCount (mode : CheckMode) (key : String) (value : Value) : Checking Int :=
  match value.displayFault? Host.displayDepth with
  | some fault => throw (.undisplayable fault)
  | none => do
    wrong mode (.wrongCount key value)
    pure Setting.defaultRetries

def asCount (mode : CheckMode) (key : String) (value : Value) : Checking Int :=
  match value with
  | .null => pure Setting.defaultRetries
  | .int n => if 0 ≤ n then pure n else refuseCount mode key value
  | .text t =>
    if mode = .lenient ∧ isDigits (Text.strip t) then do
      note (.countFromText key t)
      let n ← countOfDigits (Text.strip t)
      pure n
    else refuseCount mode key value
  | value => refuseCount mode key value

def asExtension (mode : CheckMode) (key : String) (value : Value) : Checking Text := do
  let extension ← asText mode key value
  if extension.head? = some '.' then pure extension
  else
    wrong mode (.noPoint key extension)
    pure ('.' :: extension)

def asEncoding (mode : CheckMode) (name : Text) : Checking Text :=
  match Encoding.nameFault? name with
  | some fault => throw (.unencodableName fault)
  | none =>
    if name.contains '\x00' then throw .zeroInName
    else if (Encoding.find? name).isSome then pure name
    else do
      wrong mode (.unknownEncoding name)
      pure Setting.defaultEncoding

def asPolicy (mode : CheckMode) (name : Text) : Checking Text :=
  let name := Text.lower name
  if (StatPolicy.ofName? name).isSome then pure name
  else do
    wrong mode (.unknownPolicy name)
    pure StatPolicy.skip.name.toList

def textKeys : List String :=
  [ Setting.openTag, Setting.closeTag, Setting.targetOpenTag, Setting.targetCloseTag,
    Setting.encoding, Setting.compiler, Setting.errorLogName, Setting.statPolicy ]

def flagKeys : List String :=
  [Setting.failFast, Setting.saveErrorLog]

/-- Sets every setting of some keys to what `read` makes of its value. -/
def readAll (read : String → Value → Checking Value) (keys : List String) (table : Table) :
    Checking Table :=
  keys.foldlM (fun table key => do
    let value ← read key (field table key)
    pure (table.set key value)) table

def textOf (table : Table) (key : String) : Text :=
  match table.get? key with
  | some (.text t) => t
  | _ => []

/-- Both extensions, or their defaults if they are the same. -/
def separate (mode : CheckMode) (table : Table) : Checking Table :=
  if textOf table Setting.sourceExtension = textOf table Setting.targetExtension then do
    wrong mode .sameExtensions
    pure ((table.set Setting.sourceExtension (.text Setting.defaultSource)).set
      Setting.targetExtension (.text Setting.defaultTarget))
  else pure table

def table (mode : CheckMode) (given : Table) : Checking Table := do
  let table := Setting.defaults.update given
  let table ← readAll (fun key value => .text <$> asText mode key value) textKeys table
  let table ← readAll (fun key value => .bool <$> asFlag mode key value) flagKeys table
  let table ← readAll (fun key value => .int <$> asCount mode key value)
    [Setting.statRetries] table
  let table ← readAll (fun key value => .text <$> asExtension mode key value)
    [Setting.sourceExtension, Setting.targetExtension] table
  let table ← separate mode table
  let encoding ← asEncoding mode (textOf table Setting.encoding)
  let table := table.set Setting.encoding (.text encoding)
  let policy ← asPolicy mode (textOf table Setting.statPolicy)
  pure (table.set Setting.statPolicy (.text policy))

end Check

/-- The settings that a value gives, and the findings about it. -/
def checkSettings [Host] (mode : CheckMode) (given : Value) :
    Except SettingsFault (Table × List Finding) :=
  match given with
  | .table entries => (Check.table mode entries).run []
  | other => (do
      Check.wrong mode (.notTable other.typeName)
      pure Setting.defaults).run []

end Inlay
