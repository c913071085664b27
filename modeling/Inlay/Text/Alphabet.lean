import Inlay.Text.Basic

/-!
# Surrogates in texts

A text may hold surrogates without a partner: they stand for the bytes of a file name that is no
text, and a settings file may spell them. They are no characters, so the characters of a private
block stand in for them. Which block is left open: whatever texts a run meets, some block is not
among their characters.
-/

namespace Inlay

/-- The block of characters that stand in for the surrogates, by its first one. -/
class Alphabet where
  first : Nat
  isPrivate : 0xe000 ≤ first ∧ first + 0x800 ≤ 0xf900 ∨ 0xf0000 ≤ first ∧ first + 0x800 ≤ 0x10fffe

namespace Alphabet

variable [Alphabet]

def isSurrogate (c : Char) : Bool :=
  decide (first ≤ c.toNat ∧ c.toNat < first + 0x800)

theorem isSurrogate_of_toNat_lt {c : Char} (h : c.toNat < 0xe000) : isSurrogate c = false := by
  have hp := isPrivate
  rw [isSurrogate, decide_eq_false_iff_not]
  omega

/-- The code point that a character is, or stands in for. -/
def codePoint (c : Char) : Nat :=
  if isSurrogate c then 0xd800 + (c.toNat - first) else c.toNat

/-- Does a character stand in for a surrogate that stands for a byte of a file name? -/
def isByte (c : Char) : Bool :=
  isSurrogate c && decide (0xdc80 ≤ codePoint c ∧ codePoint c ≤ 0xdcff)

def ofCodePoint (n : Nat) : Char :=
  if 0xd800 ≤ n ∧ n < 0xe000 then Char.ofNat (first + (n - 0xd800)) else Char.ofNat n

end Alphabet

end Inlay
