import Inlay.Codec.Fault

/-!
# Texts that are no paths

A path holds no zero character, and no surrogate but those that stand for bytes. A text that does is
refused before any file is looked at.
-/

namespace Inlay

/-- Why a text is no path. -/
inductive PathRefusal where
  | unencodable (fault : CodecFault)
  | zero

namespace Path

variable [Alphabet]

def isRefused (c : Char) : Bool :=
  Alphabet.isSurrogate c && !Alphabet.isByte c

def refusal? (path : Text) : Option PathRefusal :=
  match surrogateFault? "utf-8" true isRefused 0 path with
  | some fault => some (.unencodable fault)
  | none => if path.contains '\x00' then some .zero else none

end Path

end Inlay
