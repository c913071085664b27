import Inlay.Codec.Utf8

/-!
# Codecs with one byte for a character

Such a codec is a partial map from bytes to characters and a partial map back (`SingleByte`).
-/

namespace Inlay

structure SingleByte where
  name : String
  reason : CodecReason
  char? : Byte → Option Char
  byte? : Char → Option Byte

namespace SingleByte

def read (codec : SingleByte) (position : Nat) : Bytes → Except CodecFault Text
  | [] => .ok []
  | b :: rest => match codec.char? b with
    | some c => (c :: ·) <$> codec.read (position + 1) rest
    | none => .error (.undecodable codec.name b position (position + 1) codec.reason)

def decode (codec : SingleByte) (bytes : Bytes) : Except CodecFault Text :=
  codec.read 0 bytes

/-- Writes characters from a position on; a fault covers the whole run of characters that have
no byte. -/
def write (codec : SingleByte) (position : Nat) : Text → Except CodecFault Bytes
  | [] => .ok []
  | c :: rest => match codec.byte? c with
    | some b => (b :: ·) <$> codec.write (position + 1) rest
    | none =>
      let run := rest.takeWhile fun d => (codec.byte? d).isNone
      .error (.unencodable codec.name c position (position + 1 + run.length) codec.reason)

def encode (codec : SingleByte) (text : Text) : Except CodecFault Bytes :=
  codec.write 0 text

/-! ### The codecs -/

/-- The first characters of Unicode, below a bound of at most 256. -/
def initial (name : String) (bound : Nat) : SingleByte where
  name := name
  reason := .outOfRange bound
  char? b := if b.val < bound then some (Char.ofNat b.val) else none
  byte? c := if h : c.toNat < bound ∧ c.toNat < 256 then some ⟨c.toNat, h.2⟩ else none

def ascii : SingleByte :=
  initial "ascii" 128

def latin1 : SingleByte :=
  initial "latin-1" 256

/-- The characters of the bytes from 0x80 to 0x9f in the western code page; zero where there is
none. -/
def westernSpecials : List Nat :=
  [0x20ac, 0, 0x201a, 0x192, 0x201e, 0x2026, 0x2020, 0x2021, 0x2c6, 0x2030, 0x160, 0x2039, 0x152,
    0, 0x17d, 0, 0, 0x2018, 0x2019, 0x201c, 0x201d, 0x2022, 0x2013, 0x2014, 0x2dc, 0x2122, 0x161,
    0x203a, 0x153, 0, 0x17e, 0x178]

def western : SingleByte where
  name := "charmap"
  reason := .undefined
  char? b :=
    if 0x80 ≤ b.val ∧ b.val < 0xa0 then
      match westernSpecials[b.val - 0x80]? with
      | some 0 => none
      | some n => some (Char.ofNat n)
      | none => none
    else some (Char.ofNat b.val)
  byte? c :=
    if c.toNat < 0x80 ∨ (0xa0 ≤ c.toNat ∧ c.toNat < 0x100) then some (Utf8.byte c.toNat)
    else (westernSpecials.idxOf? c.toNat).map fun i => Utf8.byte (0x80 + i)

end SingleByte

end Inlay
