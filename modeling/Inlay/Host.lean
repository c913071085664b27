import Inlay.Codec.Name

/-!
# What the program runs on

The program leaves codecs, and how deep things may be nested, to the system that runs it. What it
relies on is part of `Host`: the usual encoding of files is known under its name, a text can be
displayed, and the tables of a settings file can be read.
-/

namespace Inlay

/-- What the program is given by the system that runs it. -/
class Host extends Alphabet where
  /-- The encodings by name. -/
  encoding? : Text → Option Encoding
  utf8 : encoding? "utf-8".toList = some (.text .utf8)
  /-- What the output stream finds wrong with a text. -/
  printFault? : Text → Option CodecFault
  /-- How deep a value may be nested that is displayed. -/
  displayDepth : Nat
  displays : 0 < displayDepth
  /-- How deep lists and tables may be nested in a settings file. -/
  readDepth : Nat
  reads : 2 ≤ readDepth
  /-- How many modules may have to be imported around each other. -/
  importDepth : Nat

namespace Encoding

def find? [Host] (name : Text) : Option Encoding :=
  Host.encoding? name

/-- A surrogate in a name, which no encoding is looked up for. -/
def nameFault? [Alphabet] (name : Text) : Option CodecFault :=
  surrogateFault? "utf-8" true Alphabet.isSurrogate 0 name

end Encoding

end Inlay

namespace Inlay.Standard

/-- Some of the last private characters stand in for the surrogates. -/
abbrev alphabet : Alphabet :=
  ⟨0x10f000, by decide⟩

/-- A host with the common encodings. -/
scoped instance host : Host where
  toAlphabet := alphabet
  encoding? := @Encoding.known? alphabet
  utf8 := rfl
  printFault? := @surrogateFault? alphabet "utf-8" true (@Alphabet.isSurrogate alphabet) 0
  displayDepth := 900
  displays := by decide
  readDepth := 900
  reads := by decide
  importDepth := 200

end Inlay.Standard
