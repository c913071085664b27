import Inlay.Text.Basic
import Inlay.Text.Ranges

/-!
# Blank characters

The blank characters of Unicode, controls that separate fields included. `strip` removes them at
both ends; what is left neither starts nor ends with one (`head_strip`, `last_strip`).
-/

namespace Inlay

def blankRanges : Ranges :=
  [(0x9, 0xd), (0x1c, 0x20), (0x85, 0x85), (0xa0, 0xa0), (0x1680, 0x1680), (0x2000, 0x200a),
    (0x2028, 0x2029), (0x202f, 0x202f), (0x205f, 0x205f), (0x3000, 0x3000)]

def isBlank (c : Char) : Bool :=
  blankRanges.contains c

namespace Text

def strip (text : Text) : Text :=
  trim isBlank text

theorem head_dropWhile (p : Char → Bool) (text : Text) (c : Char)
    (h : (text.dropWhile p).head? = some c) : p c = false := by
  induction text with
  | nil => simp at h
  | cons d rest ih =>
    rw [List.dropWhile_cons] at h
    split at h
    · exact ih h
    · next hd =>
      simp only [List.head?_cons, Option.some.injEq] at h
      simpa [h] using hd

theorem last_strip (text : Text) (c : Char) (h : (strip text).getLast? = some c) :
    isBlank c = false := by
  simp only [strip, trim, trimEnd, List.getLast?_reverse] at h
  exact head_dropWhile isBlank _ c h

theorem trimEnd_prefix (p : Char → Bool) (text : Text) : trimEnd p text <+: text := by
  refine ⟨(text.reverse.takeWhile p).reverse, ?_⟩
  rw [trimEnd, ← List.reverse_append, List.takeWhile_append_dropWhile, List.reverse_reverse]

theorem head_strip (text : Text) (c : Char) (h : (strip text).head? = some c) :
    isBlank c = false := by
  obtain ⟨tail, ht⟩ := trimEnd_prefix isBlank (text.dropWhile isBlank)
  refine head_dropWhile isBlank text c ?_
  simp only [strip, trim] at h
  rw [← ht, List.head?_append, h]
  rfl

end Text

def Text.words (text : Text) : List Text :=
  (go text).filter (!·.isEmpty)
where
  go : Text → List Text
    | [] => [[]]
    | c :: rest =>
      if isBlank c then [] :: go rest
      else match go rest with
        | [] => [[c]]
        | word :: more => (c :: word) :: more

end Inlay
