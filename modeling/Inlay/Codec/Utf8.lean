import Inlay.Codec.Fault

/-!
# UTF-8

A character is one to four bytes: the lead byte gives the number of continuation bytes and the
range of the first of them. Bytes are read one at a time, and what has been read of a character
is kept in a `Partial`.
-/

namespace Inlay.Utf8

/-! ### Writing -/

def byte (n : Nat) : Byte :=
  ⟨n % 256, Nat.mod_lt n (by decide)⟩

def encodeChar (c : Char) : Bytes :=
  let n := c.toNat
  if n < 0x80 then [byte n]
  else if n < 0x800 then [byte (0xc0 + n / 0x40), byte (0x80 + n % 0x40)]
  else if n < 0x10000 then
    [byte (0xe0 + n / 0x1000), byte (0x80 + n / 0x40 % 0x40), byte (0x80 + n % 0x40)]
  else
    [byte (0xf0 + n / 0x40000), byte (0x80 + n / 0x1000 % 0x40), byte (0x80 + n / 0x40 % 0x40),
      byte (0x80 + n % 0x40)]

def encode (text : Text) : Bytes :=
  text.flatMap encodeChar

/-! ### Reading -/

structure Partial where
  start : Nat
  lead : Byte
  /-- How many bytes are still missing. -/
  need : Nat
  low : Nat
  high : Nat
  value : Nat

def begin? (start : Nat) (b : Byte) : Option Partial :=
  let n := b.val
  if 0xc2 ≤ n ∧ n ≤ 0xdf then some ⟨start, b, 1, 0x80, 0xbf, n - 0xc0⟩
  else if n = 0xe0 then some ⟨start, b, 2, 0xa0, 0xbf, 0⟩
  else if n = 0xed then some ⟨start, b, 2, 0x80, 0x9f, 0xd⟩
  else if 0xe1 ≤ n ∧ n ≤ 0xef then some ⟨start, b, 2, 0x80, 0xbf, n - 0xe0⟩
  else if n = 0xf0 then some ⟨start, b, 3, 0x90, 0xbf, 0⟩
  else if n = 0xf4 then some ⟨start, b, 3, 0x80, 0x8f, 4⟩
  else if 0xf1 ≤ n ∧ n ≤ 0xf3 then some ⟨start, b, 3, 0x80, 0xbf, n - 0xf0⟩
  else none

def read (position : Nat) (pending : Option Partial) : Bytes → Except CodecFault Text
  | [] => match pending with
    | none => .ok []
    | some p => .error (.undecodable "utf-8" p.lead p.start position .unexpectedEnd)
  | b :: rest => match pending with
    | none =>
      if b.val < 0x80 then (Char.ofNat b.val :: ·) <$> read (position + 1) none rest
      else match begin? position b with
        | some p => read (position + 1) (some p) rest
        | none => .error (.undecodable "utf-8" b position (position + 1) .invalidStart)
    | some p =>
      if p.low ≤ b.val ∧ b.val ≤ p.high then
        let value := 0x40 * p.value + (b.val - 0x80)
        if p.need ≤ 1 then (Char.ofNat value :: ·) <$> read (position + 1) none rest
        else
          let next := { p with need := p.need - 1, low := 0x80, high := 0xbf, value := value }
          read (position + 1) (some next) rest
      else .error (.undecodable "utf-8" p.lead p.start position .invalidContinuation)

def decode (bytes : Bytes) : Except CodecFault Text :=
  read 0 none bytes

/-! ### With a mark -/

def mark : Bytes :=
  encodeChar (Char.ofNat 0xfeff)

def encodeMarked (text : Text) : Bytes :=
  mark ++ encode text

/-- The text of some bytes without a mark in front of them; positions count from after the mark.
An unfinished mark is no text. -/
def decodeMarked (bytes : Bytes) : Except CodecFault Text :=
  if mark.isPrefixOf bytes then decode (bytes.drop mark.length)
  else if bytes.isPrefixOf mark then .ok []
  else decode bytes

end Inlay.Utf8
