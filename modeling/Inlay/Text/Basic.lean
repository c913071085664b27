/-!
# Text

File contents, paths, markers and settings are lists of characters. This module cuts them:
at the first occurrence of a pattern, at a single character, and at their ends.
`eq_append_of_cutFirst` and `cutFirst_eq_none_iff` say what the first cut is.
-/

namespace Inlay

abbrev Text := List Char

abbrev Path := List Char

def str (text : Text) : String :=
  String.ofList text

namespace Text

/-! ### Cutting at a pattern -/

/-- The text before the first occurrence of `pattern` and the text after it. -/
def cutFirst (pattern : Text) : Text → Option (Text × Text)
  | [] => if pattern.isEmpty then some ([], []) else none
  | c :: rest =>
    if pattern.isPrefixOf (c :: rest) then some ([], (c :: rest).drop pattern.length)
    else (cutFirst pattern rest).map fun (before, after) => (c :: before, after)

theorem eq_append_of_cutFirst {pattern text before after : Text}
    (h : cutFirst pattern text = some (before, after)) : text = before ++ pattern ++ after := by
  induction text generalizing before with
  | nil =>
    simp only [cutFirst] at h
    split at h <;> simp_all
  | cons c rest ih =>
    simp only [cutFirst] at h
    split at h
    · next hp =>
      obtain ⟨after', ha⟩ := List.isPrefixOf_iff_prefix.1 hp
      simp only [Option.some.injEq, Prod.mk.injEq] at h
      obtain ⟨rfl, rfl⟩ := h
      simp [← ha]
    · obtain ⟨⟨before', after'⟩, hc, he⟩ := Option.map_eq_some_iff.1 h
      simp only [Prod.mk.injEq] at he
      obtain ⟨rfl, rfl⟩ := he
      simp [ih hc]

theorem cutFirst_eq_none_iff {pattern text : Text} :
    cutFirst pattern text = none ↔ ∀ before after, text ≠ before ++ pattern ++ after := by
  induction text with
  | nil =>
    simp only [cutFirst]
    split
    · next hp =>
      simp only [List.isEmpty_iff] at hp
      simp [hp]
    · next hp =>
      simp only [List.isEmpty_iff] at hp
      simp [hp]
  | cons c rest ih =>
    simp only [cutFirst]
    split
    · next hp =>
      obtain ⟨after, ha⟩ := List.isPrefixOf_iff_prefix.1 hp
      simp only [reduceCtorEq, false_iff, Classical.not_forall, Decidable.not_not]
      exact ⟨[], after, by simp [ha]⟩
    · next hp =>
      simp only [Option.map_eq_none_iff, ih]
      constructor
      · intro h before after he
        cases before with
        | nil => exact hp (List.isPrefixOf_iff_prefix.2 ⟨after, by simpa using he.symm⟩)
        | cons b before =>
          simp only [List.cons_append, List.cons.injEq] at he
          exact h before after (by simpa using he.2)
      · intro h before after he
        exact h (c :: before) after (by simp [he])

theorem length_of_cutFirst {pattern text before after : Text}
    (h : cutFirst pattern text = some (before, after)) :
    text.length = before.length + pattern.length + after.length := by
  rw [eq_append_of_cutFirst h]
  simp only [List.length_append]

/-! ### Cutting at a character -/

/-- The pieces between the occurrences of a character; there is always at least one. -/
def split (c : Char) : Text → List Text
  | [] => [[]]
  | d :: rest =>
    if d = c then [] :: split c rest
    else match split c rest with
      | [] => [[d]]
      | piece :: pieces => (d :: piece) :: pieces

def join (c : Char) (pieces : List Text) : Text :=
  [c].intercalate pieces

/-- The text up to and including the last character that satisfies `p`, and the rest. -/
def cutLast (p : Char → Bool) (text : Text) : Text × Text :=
  ((text.reverse.dropWhile (!p ·)).reverse, (text.reverse.takeWhile (!p ·)).reverse)

theorem cutLast_append (p : Char → Bool) (text : Text) :
    (cutLast p text).1 ++ (cutLast p text).2 = text := by
  simp only [cutLast, ← List.reverse_append, List.takeWhile_append_dropWhile, List.reverse_reverse]

/-! ### Ends -/

def trimEnd (p : Char → Bool) (text : Text) : Text :=
  (text.reverse.dropWhile p).reverse

def trim (p : Char → Bool) (text : Text) : Text :=
  trimEnd p (text.dropWhile p)

def dropSuffix? (suffix text : Text) : Option Text :=
  if suffix.isSuffixOf text then some (text.take (text.length - suffix.length)) else none

theorem dropSuffix?_eq_some_iff {suffix text stem : Text} :
    dropSuffix? suffix text = some stem ↔ text = stem ++ suffix := by
  simp only [dropSuffix?]
  constructor
  · intro h
    split at h
    · next hs =>
      obtain ⟨stem', rfl⟩ := List.isSuffixOf_iff_suffix.1 hs
      simp only [Option.some.injEq] at h
      simp [← h]
    · simp at h
  · rintro rfl
    simp [List.isSuffixOf_iff_suffix]

def countLines (text : Text) : Nat :=
  text.count '\n'

/-! ### Numbers -/

def hexDigit (n : Nat) : Char :=
  if n < 10 then Char.ofNat ('0'.toNat + n) else Char.ofNat ('a'.toNat + (n - 10))

/-- The last `width` hexadecimal digits of a number. -/
def hex : (width : Nat) → (n : Nat) → Text
  | 0, _ => []
  | width + 1, n => hex width (n / 16) ++ [hexDigit (n % 16)]

/-- A code point after a backslash, in the least of the three widths. -/
def escape (n : Nat) : Text :=
  if n < 0x100 then '\\' :: 'x' :: hex 2 n
  else if n < 0x10000 then '\\' :: 'u' :: hex 4 n
  else '\\' :: 'U' :: hex 8 n

def hexValue? (c : Char) : Option Nat :=
  if '0' ≤ c ∧ c ≤ '9' then some (c.toNat - '0'.toNat)
  else if 'a' ≤ c ∧ c ≤ 'f' then some (c.toNat - 'a'.toNat + 10)
  else if 'A' ≤ c ∧ c ≤ 'F' then some (c.toNat - 'A'.toNat + 10)
  else none

/-! ### Order -/

def atMost (a b : Text) : Bool :=
  !decide (b < a)

end Text

end Inlay
