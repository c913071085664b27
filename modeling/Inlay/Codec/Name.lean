import Inlay.Codec.SingleByte
import Inlay.Codec.Utf16

/-!
# Encodings by name

A name is compared in lower case, with a single underscore for every run of other characters than
letters, digits and points. A name may belong to a codec between bytes and text, or to a
conversion of another kind that files cannot be opened with.
-/

namespace Inlay

/-- A codec between bytes and text. -/
structure Codec where
  decode : Bytes → Except CodecFault Text
  encode : Text → Except CodecFault Bytes

namespace Codec

variable [Alphabet]

/-- A codec that can write every character, and no surrogate. -/
def ofUnicode (name : String) (together : Bool) (decode : Bytes → Except CodecFault Text)
    (encode : Text → Bytes) : Codec where
  decode := decode
  encode text := match surrogateFault? name together Alphabet.isSurrogate 0 text with
    | some fault => .error fault
    | none => .ok (encode text)

def utf8 : Codec :=
  ofUnicode "utf-8" true Utf8.decode Utf8.encode

def utf8Marked : Codec :=
  ofUnicode "utf-8" true Utf8.decodeMarked Utf8.encodeMarked

def utf16 : Codec :=
  ofUnicode "utf-16" false Utf16.decodeMarked Utf16.encodeMarked

def utf16Fixed (order : Utf16.Order) : Codec :=
  ofUnicode order.codec false (Utf16.decode order) (Utf16.encode order)

def single (codec : SingleByte) : Codec :=
  ⟨codec.decode, codec.encode⟩

end Codec

inductive Encoding where
  | text (codec : Codec)
  /-- A conversion that is not between bytes and text. -/
  | other

namespace Encoding

/-- A name in the form that names are compared in. -/
def normalize (name : Text) : Text :=
  go false [] name
where
  /-- `gap` says that a run of other characters has just ended a word of `done`. -/
  go (gap : Bool) (done : Text) : Text → Text
    | [] => done
    | c :: rest =>
      if c.isAlphanum || c == '.' then
        go false (done ++ (if gap && !done.isEmpty then ['_'] else []) ++ [c.toLower]) rest
      else go true done rest

/-- The names of some encodings; the first of each list is the proper one and holds no point. -/
def names [Alphabet] : List (Encoding × List String) :=
  [ (.text .utf8, ["utf_8", "u8", "utf", "utf8", "utf8_ucs2", "utf8_ucs4", "cp65001"]),
    (.text .utf8Marked, ["utf_8_sig"]),
    (.text .utf16, ["utf_16", "u16", "utf16"]),
    (.text (.utf16Fixed .little), ["utf_16_le", "unicodelittleunmarked", "utf_16le"]),
    (.text (.utf16Fixed .big), ["utf_16_be", "unicodebigunmarked", "utf_16be"]),
    (.text (.single .ascii), ["ascii", "646", "ansi_x3_4_1968", "ansi_x3_4_1986", "cp367",
      "csascii", "ibm367", "iso646_us", "iso_646.irv_1991", "iso_ir_6", "us", "us_ascii"]),
    (.text (.single .latin1), ["latin_1", "8859", "cp819", "csisolatin1", "ibm819", "iso8859",
      "iso8859_1", "iso_8859_1", "iso_8859_1_1987", "iso_ir_100", "l1", "latin", "latin1"]),
    (.text (.single .western), ["cp1252", "1252", "windows_1252"]),
    (.other, ["rot_13", "rot13"]),
    (.other, ["base64_codec", "base64", "base_64"]),
    (.other, ["hex_codec", "hex"]) ]

/-- The encoding with a name among these. A point counts as an underscore, but not in the proper
name. -/
def known? [Alphabet] (name : Text) : Option Encoding :=
  let plain := normalize name
  let joined := plain.map fun c => if c == '.' then '_' else c
  let known : Encoding × List String → Bool
    | (_, []) => false
    | (_, proper :: others) =>
      proper.toList == plain || others.any fun s => s.toList == plain || s.toList == joined
  (names.find? known).map (·.1)

end Encoding

end Inlay
