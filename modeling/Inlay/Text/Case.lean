import Inlay.Text.Basic
import Inlay.Text.Blank
import Inlay.Text.CaseTable

/-!
# Letter case

Full case mapping: a letter may become several, and a capital sigma at the end of a word becomes
the final form.
-/

namespace Inlay

def CaseRun.move (runs : List CaseRun) (n : Nat) : Nat :=
  match runs.find? (·.covers n) with
  | some run => (n + run.shift).toNat
  | none => n

/-- The letters a character becomes, by the list of exceptions first and the runs second. -/
def mapCase (special : List (Nat × List Nat)) (runs : List CaseRun) (c : Char) : Text :=
  match special.lookup c.toNat with
  | some letters => letters.map Char.ofNat
  | none => [Char.ofNat (CaseRun.move runs c.toNat)]

/-- The first character that case rules do not look through is cased. -/
def meetsCased (text : Text) : Bool :=
  match text.dropWhile caseIgnorableRanges.contains with
  | c :: _ => casedRanges.contains c
  | [] => false

/-- A character in lower case, given the text before it (nearest first) and the text after it. -/
def lowerAt (before : Text) (c : Char) (after : Text) : Text :=
  if c = 'Σ' then [if meetsCased before && !meetsCased after then 'ς' else 'σ']
  else mapCase lowerSpecial lowerRuns c

def lowerAfter (before : Text) : Text → Text
  | [] => []
  | c :: rest => lowerAt before c rest ++ lowerAfter (c :: before) rest

namespace Text

def lower (text : Text) : Text :=
  lowerAfter [] text

def capitalize : Text → Text
  | [] => []
  | c :: rest => mapCase titleSpecial titleRuns c ++ lowerAfter [c] rest

def capitalizeWords (text : Text) : Text :=
  join ' ' (text.words.map capitalize)

end Text

/-- The capital letters a character becomes, when all of them are in the basic Latin alphabet. -/
def basicCapital? (c : Char) : Option Text :=
  if c.toNat < 0x80 then some [c.toUpper]
  else [('ß', "SS"), ('ı', "I"), ('ſ', "S"), ('ﬀ', "FF"), ('ﬁ', "FI"), ('ﬂ', "FL"), ('ﬃ', "FFI"),
    ('ﬄ', "FFL"), ('ﬅ', "ST"), ('ﬆ', "ST")].lookup c |>.map String.toList

def Text.basicCapitals? (text : Text) : Option Text :=
  (text.mapM basicCapital?).map List.flatten

end Inlay
