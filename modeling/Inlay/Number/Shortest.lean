import Inlay.Number.Binary
import Inlay.Text.Basic

/-!
# The shortest decimal of a binary number

A number is written with the fewest digits that are rounded back to it, and with the nearest such
decimal. The digits stand in positional notation while the decimal exponent is at least `-4` and
below `16`, and otherwise in front of an exponent of at least two digits.
-/

namespace Inlay.Binary64

structure Decimal where
  digits : Nat
  exponent : Int
  deriving DecidableEq

/-- The grid of multiples of `10 ^ step` seen from `mantissa · 2 ^ exponent`: a quarter of a unit
in the last place of the mantissa is `quarter / tick` grid steps. -/
def grid (exponent step : Int) : Nat × Nat :=
  let (num, den) := scale 1 1 (exponent - 2)
  if 0 ≤ step then (num, den * Nat.pow 10 step.toNat) else (num * Nat.pow 10 (-step).toNat, den)

/-- The multiple of `10 ^ step` that is nearest to the number among its two neighbours on that
grid, if one of them is rounded to the number. -/
def onGrid? (mantissa : Nat) (exponent step : Int) : Option Decimal :=
  let (quarter, tick) := grid exponent step
  let value := 4 * mantissa * quarter
  let low := (4 * mantissa - if mantissa = Nat.pow 2 52 ∧ exponent > -1074 then 1 else 2) * quarter
  let high := (4 * mantissa + 2) * quarter
  let closed := mantissa % 2 = 0
  let below := value / tick
  let above := below + 1
  let fitsBelow := low < below * tick ∨ (closed ∧ low = below * tick)
  let fitsAbove := above * tick < high ∨ (closed ∧ above * tick = high)
  let nearBelow := 2 * value < (below + above) * tick
    ∨ (2 * value = (below + above) * tick ∧ below % 2 = 0)
  if fitsBelow ∧ (nearBelow ∨ ¬fitsAbove) then some ⟨below, step⟩
  else if fitsAbove then some ⟨above, step⟩
  else none

/-- The least `place` with `mantissa · 2 ^ exponent < 10 ^ place`. -/
def decimalPlace (mantissa : Nat) (exponent : Int) : Int :=
  let guess := ((mantissa.log2 + exponent) * 30103).fdiv 100000
  let above (place : Int) : Bool :=
    let (quarter, tick) := grid exponent place
    decide (4 * mantissa * quarter < tick)
  ([guess - 1, guess, guess + 1, guess + 2].find? above).getD (guess + 3)

def trimZeros (fuel : Nat) (decimal : Decimal) : Decimal :=
  match fuel with
  | 0 => decimal
  | fuel + 1 =>
    if decimal.digits ≠ 0 ∧ decimal.digits % 10 = 0 then
      trimZeros fuel ⟨decimal.digits / 10, decimal.exponent + 1⟩
    else decimal

/-- The shortest decimal that is rounded to `mantissa · 2 ^ exponent`. -/
def shortest (mantissa : Nat) (exponent : Int) : Decimal :=
  let place := decimalPlace mantissa exponent
  let found := (List.range 17).findSome? fun (n : Nat) =>
    onGrid? mantissa exponent (place - (n + 1 : Nat))
  trimZeros 17 (found.getD ⟨0, 0⟩)

def layout (decimal : Decimal) : String :=
  let digits := toString decimal.digits
  let point : Int := digits.length + decimal.exponent
  let zeros (n : Int) : String := String.ofList (List.replicate n.toNat '0')
  if -4 < point ∧ point ≤ 16 then
    if point ≤ 0 then "0." ++ zeros (-point) ++ digits
    else if digits.length ≤ point then digits ++ zeros (point - digits.length) ++ ".0"
    else
      let whole := digits.toList.take point.toNat
      let part := digits.toList.drop point.toNat
      String.ofList (whole ++ '.' :: part)
  else
    let lead := digits.toList.take 1
    let tail := digits.toList.drop 1
    let tail := if tail.isEmpty then [] else '.' :: tail
    let exponent := point - 1
    let sign := if exponent < 0 then "-" else "+"
    let size := toString exponent.natAbs
    String.ofList (lead ++ tail) ++ "e" ++ sign ++ (if size.length < 2 then "0" ++ size else size)

def text (infinity nothing : String) : Binary64 → String
  | finite negative mantissa exponent =>
    (if negative then "-" else "") ++
      if mantissa = 0 then "0.0" else layout (shortest mantissa exponent)
  | infinite negative => (if negative then "-" else "") ++ infinity
  | undefined => nothing

end Inlay.Binary64
