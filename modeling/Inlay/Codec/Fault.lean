import Inlay.Text.Alphabet

/-!
# Faults of a text encoding

What a codec reports about bytes it cannot read and characters it cannot write. A fault covers
the positions from `start` up to, but not including, `stop`.
-/

namespace Inlay

abbrev Byte := Fin 256

abbrev Bytes := List Byte

inductive CodecReason where
  | invalidStart
  | invalidContinuation
  | unexpectedEnd
  | truncated
  | loneLowSurrogate
  | brokenPair
  | undefined
  | surrogate
  /-- The codec ends below this number. -/
  | outOfRange (bound : Nat)
  deriving DecidableEq

def CodecReason.text : CodecReason → String
  | invalidStart => "invalid start byte"
  | invalidContinuation => "invalid continuation byte"
  | unexpectedEnd => "unexpected end of data"
  | truncated => "truncated data"
  | loneLowSurrogate => "illegal encoding"
  | brokenPair => "illegal UTF-16 surrogate"
  | undefined => "character maps to <undefined>"
  | surrogate => "surrogates not allowed"
  | outOfRange bound => s!"ordinal not in range({bound})"

inductive CodecFault where
  | undecodable (codec : String) (first : Byte) (start stop : Nat) (reason : CodecReason)
  | unencodable (codec : String) (first : Char) (start stop : Nat) (reason : CodecReason)
  | unmarkedOrder
  /-- What another codec reports, in its own words. -/
  | other (text : String)
  deriving DecidableEq

def CodecFault.message [Alphabet] : CodecFault → String
  | undecodable codec first start stop reason =>
    s!"'{codec}' codec can't decode " ++
      (if stop = start + 1 then s!"byte 0x{str (Text.hex 2 first.val)} in position {start}"
        else s!"bytes in position {start}-{stop - 1}") ++ s!": {reason.text}"
  | unencodable codec first start stop reason =>
    s!"'{codec}' codec can't encode " ++
      (if stop = start + 1 then
        s!"character '{str (Text.escape (Alphabet.codePoint first))}' in position {start}"
        else s!"characters in position {start}-{stop - 1}") ++ s!": {reason.text}"
  | unmarkedOrder => "UTF-16 stream does not start with BOM"
  | other text => text

/-- The first character of a text that is refused for being a surrogate; the fault may cover the
surrogates right after it. -/
def surrogateFault? [Alphabet] (codec : String) (together : Bool) (refused : Char → Bool)
    (position : Nat) : Text → Option CodecFault
  | [] => none
  | c :: rest =>
    if refused c then
      let more := if together then (rest.takeWhile Alphabet.isSurrogate).length else 0
      some (.unencodable codec c position (position + 1 + more) .surrogate)
    else surrogateFault? codec together refused (position + 1) rest

theorem surrogateFault?_eq_none_iff [Alphabet] {codec : String} {together : Bool}
    {refused : Char → Bool} {position : Nat} {text : Text} :
    surrogateFault? codec together refused position text = none ↔
      ∀ c ∈ text, refused c = false := by
  induction text generalizing position with
  | nil => simp [surrogateFault?]
  | cons c rest ih =>
    rw [surrogateFault?, List.forall_mem_cons]
    cases refused c with
    | true => simp
    | false => simp [ih]

end Inlay
