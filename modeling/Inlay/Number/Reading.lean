import Inlay.Number.Binary
import Inlay.Text.Basic

/-!
# Reading decimals

A decimal has an optional sign, digits with an optional point among or around them, and an
optional exponent.
-/

namespace Inlay

def digitLimit : Nat := 4300

def hugeMessage (digits : Nat) : String :=
  s!"Exceeds the limit ({digitLimit} digits) for integer string conversion: value has {digits} " ++
    "digits; use sys.set_int_max_str_digits() to increase the limit"

def nestingMessage : String :=
  "maximum recursion depth exceeded"

def overlongMessage : String :=
  s!"Exceeds the limit ({digitLimit} digits) for integer string conversion; " ++
    "use sys.set_int_max_str_digits() to increase the limit"

namespace Binary64

/-- The longest run of decimal digits at the start of a text, and the rest. -/
def digitRun (text : Text) : Text × Text :=
  (text.takeWhile Char.isDigit, text.dropWhile Char.isDigit)

def digitsValue (digits : Text) : Nat :=
  digits.foldl (fun n c => 10 * n + (c.toNat - '0'.toNat)) 0

def signed : Text → Bool × Text
  | '-' :: rest => (true, rest)
  | '+' :: rest => (false, rest)
  | rest => (false, rest)

/-- An exponent: a sign and digits, and nothing else. -/
def exponent? (text : Text) : Option Int :=
  let (negative, rest) := signed text
  let (digits, rest) := digitRun rest
  if digits.isEmpty ∨ ¬rest.isEmpty then none
  else some (if negative then -(digitsValue digits) else digitsValue digits)

def ofText? (text : Text) : Option Binary64 := do
  let (negative, rest) := signed text
  if rest = "inf".toList then return .infinite negative
  if rest = "nan".toList then return .undefined
  let (whole, rest) := digitRun rest
  let (part, rest) := match rest with
    | '.' :: rest => digitRun rest
    | rest => ([], rest)
  if whole.isEmpty ∧ part.isEmpty then none
  let exponent ← match rest with
    | [] => some 0
    | e :: rest => if e = 'e' ∨ e = 'E' then exponent? rest else none
  return ofDecimal negative (digitsValue (whole ++ part)) (exponent - part.length)

end Binary64

end Inlay
