import Inlay.Codec.Utf8

/-!
# UTF-16

A character is one unit of two bytes, or a high and a low surrogate. The order of the two bytes
is fixed, or chosen by a mark in front of the text.
-/

namespace Inlay.Utf16

inductive Order where
  | little
  | big
  deriving DecidableEq

def Order.codec : Order → String
  | little => "utf-16-le"
  | big => "utf-16-be"

/-! ### Writing -/

def unitBytes (order : Order) (unit : Nat) : Bytes :=
  match order with
  | .little => [Utf8.byte unit, Utf8.byte (unit / 256)]
  | .big => [Utf8.byte (unit / 256), Utf8.byte unit]

def units (c : Char) : List Nat :=
  let n := c.toNat
  if n < 0x10000 then [n]
  else [0xd800 + (n - 0x10000) / 0x400, 0xdc00 + (n - 0x10000) % 0x400]

def encode (order : Order) (text : Text) : Bytes :=
  (text.flatMap units).flatMap (unitBytes order)

/-! ### Reading -/

def unitOf (order : Order) (a b : Byte) : Nat :=
  match order with
  | .little => a.val + 256 * b.val
  | .big => 256 * a.val + b.val

structure Half where
  start : Nat
  first : Byte
  high : Nat

/-- Reads bytes from a position on, after an open high surrogate. -/
def read (order : Order) (position : Nat) (half : Option Half) : Bytes → Except CodecFault Text
  | [] => match half with
    | none => .ok []
    | some h => .error (.undecodable order.codec h.first h.start position .unexpectedEnd)
  | [b] => match half with
    | none => .error (.undecodable order.codec b position (position + 1) .truncated)
    | some h => .error (.undecodable order.codec h.first h.start (position + 1) .unexpectedEnd)
  | a :: b :: rest =>
    let unit := unitOf order a b
    match half with
    | some h =>
      if 0xdc00 ≤ unit ∧ unit < 0xe000 then
        let n := 0x10000 + 0x400 * (h.high - 0xd800) + (unit - 0xdc00)
        (Char.ofNat n :: ·) <$> read order (position + 2) none rest
      else .error (.undecodable order.codec h.first h.start (h.start + 2) .brokenPair)
    | none =>
      if 0xd800 ≤ unit ∧ unit < 0xdc00 then
        read order (position + 2) (some ⟨position, a, unit⟩) rest
      else if 0xdc00 ≤ unit ∧ unit < 0xe000 then
        .error (.undecodable order.codec a position (position + 2) .loneLowSurrogate)
      else (Char.ofNat unit :: ·) <$> read order (position + 2) none rest

def decode (order : Order) (bytes : Bytes) : Except CodecFault Text :=
  read order 0 none bytes

/-! ### With a mark -/

def mark (order : Order) : Bytes :=
  unitBytes order 0xfeff

/-- The bytes of a text, after the mark of the little order. -/
def encodeMarked (text : Text) : Bytes :=
  mark .little ++ encode .little text

/-- The text of some bytes in the order of their mark. Bytes without a mark are no text, and are
checked in the little order first. -/
def decodeMarked (bytes : Bytes) : Except CodecFault Text :=
  if (mark .little).isPrefixOf bytes then read .little 2 none (bytes.drop 2)
  else if (mark .big).isPrefixOf bytes then read .big 2 none (bytes.drop 2)
  else match decode .little bytes with
    | .ok [] => .ok []
    | .ok _ => .error .unmarkedOrder
    | .error fault => .error fault

end Inlay.Utf16
