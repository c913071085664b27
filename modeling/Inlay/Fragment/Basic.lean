import Inlay.Text.Basic

/-!
# Fragments

A host text holds fragments between an opening and a closing marker. A fragment whose opening
marker is never followed by a closing one runs to the end of the text.

`segments` cuts a text into segments, each a gap of host text with the fragment after it, and the
host text after the last fragment. Markers may be empty; then fragments may be empty too, and the
fragment after an empty one has at least one character. `join_segments` says that nothing is lost.
-/

namespace Inlay

/-- The markers of fragments, in source files and in generated files. -/
structure Tags where
  openTag : Text
  closeTag : Text
  targetOpen : Text
  targetClose : Text
  deriving DecidableEq

/-- A gap of host text and the fragment after it. -/
structure Segment where
  gap : Text
  inner : Text
  closed : Bool
  deriving DecidableEq

structure Fragment where
  inner : Text
  closed : Bool
  start : Nat
  stop : Nat
  deriving DecidableEq

namespace Segment

def body (openTag closeTag : Text) (s : Segment) : Text :=
  openTag ++ s.inner ++ if s.closed then closeTag else []

def text (tags : Tags) (s : Segment) : Text :=
  s.gap ++ s.body tags.openTag tags.closeTag

end Segment

/-! ### Cutting -/

/-- The inner text at the start of `text`, whether a closing marker ends it, and the text after
it. -/
def cutClose (closeTag text : Text) : Text × Bool × Text :=
  match Text.cutFirst closeTag text with
  | some (inner, after) => (inner, !closeTag.isEmpty, after)
  | none => (text, false, [])

theorem cutClose_append (closeTag text : Text) :
    (cutClose closeTag text).1 ++ (if (cutClose closeTag text).2.1 then closeTag else [])
      ++ (cutClose closeTag text).2.2 = text := by
  cases hc : Text.cutFirst closeTag text with
  | none => simp [cutClose, hc]
  | some pair =>
    obtain ⟨inner, after⟩ := pair
    have hv : cutClose closeTag text = (inner, !closeTag.isEmpty, after) := by
      simp only [cutClose, hc]
    rw [hv, Text.eq_append_of_cutFirst hc]
    cases closeTag <;> simp

/-- The first segment of a text, and the text after it. After an empty fragment the inner text
has at least one character. -/
def nextSegment? (tags : Tags) (afterEmpty : Bool) (text : Text) : Option (Segment × Text) :=
  match Text.cutFirst tags.openTag text with
  | none => none
  | some (gap, body) =>
    if afterEmpty then
      match body with
      | [] => none
      | c :: rest =>
        let (inner, closed, after) := cutClose tags.closeTag rest
        some (⟨gap, c :: inner, closed⟩, after)
    else
      let (inner, closed, after) := cutClose tags.closeTag body
      some (⟨gap, inner, closed⟩, after)

theorem text_append_of_nextSegment? {tags : Tags} {afterEmpty : Bool} {text after : Text}
    {segment : Segment} (h : nextSegment? tags afterEmpty text = some (segment, after)) :
    segment.text tags ++ after = text := by
  simp only [nextSegment?] at h
  split at h
  · simp at h
  · next gap body hc =>
    rw [Text.eq_append_of_cutFirst hc]
    split at h
    · split at h
      · simp at h
      · next c rest =>
        simp only [Option.some.injEq, Prod.mk.injEq] at h
        obtain ⟨rfl, rfl⟩ := h
        have ha := cutClose_append tags.closeTag rest
        simp only [Segment.text, Segment.body, List.append_assoc, List.cons_append] at ha ⊢
        rw [ha]
    · simp only [Option.some.injEq, Prod.mk.injEq] at h
      obtain ⟨rfl, rfl⟩ := h
      have ha := cutClose_append tags.closeTag body
      simp only [Segment.text, Segment.body, List.append_assoc] at ha ⊢
      rw [ha]

theorem length_of_nextSegment?_true {tags : Tags} {text after : Text} {segment : Segment}
    (h : nextSegment? tags true text = some (segment, after)) : after.length < text.length := by
  have hi : segment.inner ≠ [] := by
    simp only [nextSegment?] at h
    split at h
    · simp at h
    · split at h
      · split at h
        · simp at h
        · simp only [Option.some.injEq, Prod.mk.injEq] at h
          obtain ⟨rfl, _⟩ := h
          simp
      · next hf => simp at hf
  have hl := List.length_pos_iff.2 hi
  rw [← text_append_of_nextSegment? h]
  simp only [Segment.text, Segment.body, List.length_append]
  omega

/-- What is left to do: a text that follows an empty fragment counts for less. -/
def effort (afterEmpty : Bool) (text : Text) : Nat :=
  2 * text.length + if afterEmpty then 0 else 1

theorem effort_of_nextSegment? {tags : Tags} {afterEmpty : Bool} {text after : Text}
    {segment : Segment} (h : nextSegment? tags afterEmpty text = some (segment, after)) :
    effort (segment.text tags).isEmpty after < effort afterEmpty text := by
  have hl := congrArg List.length (text_append_of_nextSegment? h)
  rw [List.length_append] at hl
  cases hs : segment.text tags with
  | cons c rest =>
    rw [hs, List.length_cons] at hl
    simp only [effort, List.isEmpty_cons, Bool.false_eq_true, if_false]
    omega
  | nil =>
    rw [hs, List.length_nil] at hl
    cases afterEmpty with
    | false =>
      simp only [effort, List.isEmpty_nil, Bool.false_eq_true, if_true, if_false]
      omega
    | true =>
      have := length_of_nextSegment?_true h
      omega

def segmentsFrom (tags : Tags) (afterEmpty : Bool) (text : Text) : List Segment × Text :=
  match h : nextSegment? tags afterEmpty text with
  | none => ([], text)
  | some (segment, after) =>
    have := effort_of_nextSegment? h
    let (more, tail) := segmentsFrom tags (segment.text tags).isEmpty after
    (segment :: more, tail)
termination_by effort afterEmpty text

def segments (tags : Tags) (text : Text) : List Segment × Text :=
  segmentsFrom tags false text

theorem join_segmentsFrom (tags : Tags) (afterEmpty : Bool) (text : Text) :
    (segmentsFrom tags afterEmpty text).1.flatMap (·.text tags)
      ++ (segmentsFrom tags afterEmpty text).2 = text := by
  fun_induction segmentsFrom tags afterEmpty text with
  | case1 => simp
  | case2 afterEmpty text segment after h _ more tail hs ih =>
    rw [hs] at ih
    simp only [List.flatMap_cons, List.append_assoc]
    rw [ih]
    exact text_append_of_nextSegment? h

theorem join_segments (tags : Tags) (text : Text) :
    (segments tags text).1.flatMap (·.text tags) ++ (segments tags text).2 = text :=
  join_segmentsFrom tags false text

/-! ### Places -/

def place (tags : Tags) (offset : Nat) : List Segment → List Fragment
  | [] => []
  | s :: rest =>
    let start := offset + s.gap.length
    let stop := start + (s.body tags.openTag tags.closeTag).length
    ⟨s.inner, s.closed, start, stop⟩ :: place tags stop rest

def extract (tags : Tags) (text : Text) : List Fragment :=
  place tags 0 (segments tags text).1

end Inlay
