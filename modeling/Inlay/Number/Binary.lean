/-!
# Binary floating-point numbers

A finite number is `mantissa · 2 ^ exponent` with at most 53 bits in the mantissa and no exponent
below `-1074`. A ratio of natural numbers is rounded to the nearest such number, and to the even
mantissa if two are equally near (`nearest`).
-/

namespace Inlay

inductive Binary64 where
  /-- The number `mantissa · 2 ^ exponent`. -/
  | finite (negative : Bool) (mantissa : Nat) (exponent : Int)
  | infinite (negative : Bool)
  | undefined
  deriving DecidableEq

namespace Binary64

/-! ### Rounding -/

/-- The natural number nearest to a ratio; a tie goes to the even one. -/
def nearest (num den : Nat) : Nat :=
  let low := num / den
  let twice := 2 * (num % den)
  if twice < den ∨ (twice = den ∧ low % 2 = 0) then low else low + 1

/-- The numerator and the denominator of a ratio times `2 ^ shift`. -/
def scale (num den : Nat) (shift : Int) : Nat × Nat :=
  if 0 ≤ shift then (num * Nat.pow 2 shift.toNat, den) else (num, den * Nat.pow 2 (-shift).toNat)

def ofRatio (negative : Bool) (num den : Nat) : Binary64 :=
  if num = 0 then .finite negative 0 (-1074)
  else
    let guess : Int := (num.log2 : Int) - den.log2 - 52
    let (n, d) := scale num den (-guess)
    let exponent := max (if n < d * Nat.pow 2 52 then guess - 1 else guess) (-1074)
    let (n, d) := scale num den (-exponent)
    let mantissa := nearest n d
    let (mantissa, exponent) :=
      if mantissa = Nat.pow 2 53 then (Nat.pow 2 52, exponent + 1) else (mantissa, exponent)
    if exponent > 971 then .infinite negative else .finite negative mantissa exponent

def ofDecimal (negative : Bool) (digits : Nat) (exponent : Int) : Binary64 :=
  let magnitude : Int := exponent + (toString digits).length
  if digits = 0 ∨ magnitude < -330 then .finite negative 0 (-1074)
  else if magnitude > 310 then .infinite negative
  else if 0 ≤ exponent then ofRatio negative (digits * Nat.pow 10 exponent.toNat) 1
  else ofRatio negative digits (Nat.pow 10 (-exponent).toNat)

/-! ### Tests -/

def isZero : Binary64 → Bool
  | finite _ mantissa _ => mantissa == 0
  | _ => false

def isOne (x : Binary64) : Bool :=
  x == ofDecimal false 1 0

end Binary64

end Inlay
