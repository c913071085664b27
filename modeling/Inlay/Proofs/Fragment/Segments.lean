import Inlay.Proofs.Fragment.Pattern
import Mathlib

/-!
# Fragments as matches of a pattern

Cutting at the first closing marker is what a matcher does that takes as little as possible and
tries the marker before the end (`head?_ways_upTo`). So the next segment of a text is the leftmost
match of the pattern of its markers, and the fragments of a text are all its matches, also where
markers are empty (`extract_eq_findAll`).
-/

namespace Inlay

namespace Match

def push (c : Char) (m : Match) : Match :=
  ⟨c :: m.taken, m.groups.modifyHead (c :: ·), m.after⟩

/-- The match of a cut before its closing marker. -/
def ofCut (closeTag : Text) (cut : Text × Bool × Text) : Match :=
  let closing := if cut.2.1 then closeTag else []
  ⟨cut.1 ++ closing, [cut.1, closing], cut.2.2⟩

end Match

/-! ### Cuts -/

theorem Text.cutFirst_nil (text : Text) : Text.cutFirst [] text = some ([], text) := by
  cases text with
  | nil => rfl
  | cons c rest => rfl

theorem cutClose_nil (text : Text) : cutClose [] text = ([], false, text) := by
  rw [cutClose, Text.cutFirst_nil]
  rfl

theorem cutClose_cons_of_prefix {closeTag rest : Text} {c : Char}
    (h : closeTag.isPrefixOf (c :: rest) = true) :
    cutClose closeTag (c :: rest) = ([], !closeTag.isEmpty, (c :: rest).drop closeTag.length) := by
  simp only [cutClose, Text.cutFirst, if_pos h]

theorem cutClose_cons_of_not {closeTag rest : Text} {c : Char}
    (h : ¬ closeTag.isPrefixOf (c :: rest) = true) :
    cutClose closeTag (c :: rest) =
      (c :: (cutClose closeTag rest).1, (cutClose closeTag rest).2) := by
  simp only [cutClose, Text.cutFirst, if_neg h]
  cases Text.cutFirst closeTag rest with
  | none => rfl
  | some cut => rfl

namespace Pattern

theorem ways_closing_cons (closeTag : Text) (c : Char) (rest : Text) :
    (group (either (literal closeTag) atEnd)).ways (c :: rest) =
      if closeTag.isPrefixOf (c :: rest)
        then [⟨closeTag, [closeTag], (c :: rest).drop closeTag.length⟩] else [] := by
  simp only [ways, List.isEmpty_cons, Bool.false_eq_true, if_false, List.append_nil]
  split
  · rfl
  · rfl

theorem ways_upTo_cons (closeTag : Text) (c : Char) (rest : Text) :
    (upTo closeTag).ways (c :: rest) =
      (if closeTag.isPrefixOf (c :: rest)
        then [⟨closeTag, [[], closeTag], (c :: rest).drop closeTag.length⟩] else []) ++
      ((upTo closeTag).ways rest).map (Match.push c) := by
  rw [upTo, ways_both, ways_both, ways_group .lazyAny, ways_group .lazyAny, ways_lazyAny_cons,
    List.map_cons, List.flatMap_cons, List.map_flatMap]
  congr 1
  · show (Pattern.ways _ (c :: rest)).map (Match.next ⟨[], [[]], c :: rest⟩) = _
    rw [ways_closing_cons]
    split
    · rfl
    · rfl
  · simp only [List.map_map, List.flatMap_map]
    rfl

theorem head?_ways_upTo (closeTag text : Text) :
    ((upTo closeTag).ways text).head? = some (.ofCut closeTag (cutClose closeTag text)) := by
  induction text with
  | nil =>
    cases closeTag with
    | nil => rfl
    | cons c rest => rfl
  | cons c rest ih =>
    rw [ways_upTo_cons]
    by_cases h : closeTag.isPrefixOf (c :: rest) = true
    · rw [if_pos h, cutClose_cons_of_prefix h]
      cases closeTag with
      | nil => rfl
      | cons d closeTag => rfl
    · rw [if_neg h, cutClose_cons_of_not h, List.nil_append, List.head?_map, ih]
      simp [Match.ofCut, Match.push]

/-! ### The match of a fragment -/

theorem ways_pattern {tags : Tags} {text : Text} (h : tags.openTag.isPrefixOf text = true) :
    tags.pattern.ways text = ((upTo tags.closeTag).ways (text.drop tags.openTag.length)).map
      (Match.next ⟨tags.openTag, [], text.drop tags.openTag.length⟩) := by
  rw [Tags.pattern, ways_both, ways, if_pos h, List.flatMap_singleton]

theorem ways_pattern_of_not {tags : Tags} {text : Text}
    (h : ¬ tags.openTag.isPrefixOf text = true) : tags.pattern.ways text = [] := by
  rw [Tags.pattern, ways_both, ways, if_neg h, List.flatMap_nil]

/-- The match of a segment that follows its gap. -/
def ofSegment (tags : Tags) (s : Segment) (after : Text) : Match :=
  ⟨s.body tags.openTag tags.closeTag, [s.inner, if s.closed then tags.closeTag else []], after⟩

theorem next_ofCut (tags : Tags) (gap text : Text) (cut : Text × Bool × Text) :
    Match.next ⟨tags.openTag, [], text⟩ (.ofCut tags.closeTag cut) =
      ofSegment tags ⟨gap, cut.1, cut.2.1⟩ cut.2.2 := by
  simp [Match.next, Match.ofCut, ofSegment, Segment.body]

theorem first?_pattern {tags : Tags} {text : Text} (h : tags.openTag.isPrefixOf text = true) :
    tags.pattern.first? false text =
      some (.next ⟨tags.openTag, [], text.drop tags.openTag.length⟩
        (.ofCut tags.closeTag (cutClose tags.closeTag (text.drop tags.openTag.length)))) := by
  have hall (ms : List Match) : ms.find? (fun m => !(false && m.taken.isEmpty)) = ms.head? := by
    cases ms <;> rfl
  rw [first?, hall, ways_pattern h, List.head?_map, head?_ways_upTo]
  rfl

theorem search_pattern_false (tags : Tags) (text : Text) :
    tags.pattern.search false text =
      (nextSegment? tags false text).map fun (s, after) => (s.gap, ofSegment tags s after) := by
  have hnot {t : Text} (h : ¬ tags.openTag.isPrefixOf t = true) :
      tags.pattern.first? false t = none := by
    rw [first?, ways_pattern_of_not h]
    rfl
  induction text with
  | nil =>
    cases ho : tags.openTag with
    | nil =>
      have hp : tags.openTag.isPrefixOf [] = true := by rw [ho]; rfl
      rw [search, first?_pattern hp, next_ofCut tags []]
      simp [nextSegment?, ho, Text.cutFirst]
    | cons c rest =>
      have hp : ¬ tags.openTag.isPrefixOf [] = true := by simp [ho]
      rw [search, hnot hp]
      simp [nextSegment?, ho, Text.cutFirst]
  | cons c rest ih =>
    by_cases hp : tags.openTag.isPrefixOf (c :: rest) = true
    · simp only [search, first?_pattern hp, next_ofCut tags []]
      simp only [nextSegment?, Text.cutFirst, if_pos hp]
      rfl
    · simp only [search, hnot hp, ih, nextSegment?, Text.cutFirst, if_neg hp]
      cases Text.cutFirst tags.openTag rest with
      | none => rfl
      | some cut => rfl

theorem first?_nil (p : Pattern) : p.first? true [] = none := by
  refine List.find?_eq_none.2 fun m hm => ?_
  have ht := (List.append_eq_nil_iff.1 (taken_append_after hm)).1
  simp [ht]

/-- Between empty markers a match that has to take something takes one character. -/
theorem first?_pattern_cons {tags : Tags} (ho : tags.openTag = []) (hc : tags.closeTag = [])
    (c : Char) (rest : Text) :
    tags.pattern.first? true (c :: rest) = some (ofSegment tags ⟨[], [c], false⟩ rest) := by
  have hp : tags.openTag.isPrefixOf (c :: rest) = true := by rw [ho]; rfl
  have hhead := head?_ways_upTo [] rest
  obtain ⟨more, hways⟩ := List.head?_eq_some_iff.1 hhead
  rw [first?, ways_pattern hp, ho, hc, List.length_nil, List.drop_zero, ways_upTo_cons, hways,
    cutClose_nil]
  simp [Match.next, Match.ofCut, Match.push, ofSegment, Segment.body, ho]

/-- After an empty match at the end of a text nothing is found any more, and elsewhere a single
character between empty markers. -/
theorem search_pattern_true {tags : Tags} {text : Text} (ho : tags.openTag = [])
    (hc : tags.closeTag = [] ∨ text = []) :
    tags.pattern.search true text =
      (nextSegment? tags true text).map fun (s, after) => (s.gap, ofSegment tags s after) := by
  cases text with
  | nil =>
    rw [search, first?_nil]
    simp [nextSegment?, ho, Text.cutFirst]
  | cons c rest =>
    have hclose : tags.closeTag = [] := by simpa using hc
    simp only [search, first?_pattern_cons ho hclose]
    simp [nextSegment?, ho, hclose, Text.cutFirst, cutClose_nil]

end Pattern

/-! ### What follows a segment -/

/-- A segment without a closing marker is the last one, unless the marker is empty. -/
theorem closed_of_nextSegment? {tags : Tags} {afterEmpty : Bool} {text after : Text}
    {segment : Segment} (h : nextSegment? tags afterEmpty text = some (segment, after)) :
    if segment.closed then tags.closeTag ≠ [] else tags.closeTag = [] ∨ after = [] := by
  have hcut (t : Text) : if (cutClose tags.closeTag t).2.1 then tags.closeTag ≠ []
      else tags.closeTag = [] ∨ (cutClose tags.closeTag t).2.2 = [] := by
    rw [cutClose]
    cases Text.cutFirst tags.closeTag t with
    | none => simp
    | some cut => cases hc : tags.closeTag <;> simp
  simp only [nextSegment?] at h
  split at h
  · simp at h
  · split at h
    · split at h
      · simp at h
      · obtain ⟨rfl, rfl⟩ := Prod.mk.inj (Option.some.inj h)
        exact hcut _
    · obtain ⟨rfl, rfl⟩ := Prod.mk.inj (Option.some.inj h)
      exact hcut _

theorem gap_of_nextSegment? {tags : Tags} {afterEmpty : Bool} {text after : Text}
    {segment : Segment} (h : nextSegment? tags afterEmpty text = some (segment, after)) :
    ∃ body, Text.cutFirst tags.openTag text = some (segment.gap, body) := by
  simp only [nextSegment?] at h
  split at h
  · simp at h
  · next gap body hcut =>
    refine ⟨body, ?_⟩
    split at h
    · split at h
      · simp at h
      · obtain ⟨rfl, rfl⟩ := Prod.mk.inj (Option.some.inj h)
        exact hcut
    · obtain ⟨rfl, rfl⟩ := Prod.mk.inj (Option.some.inj h)
      exact hcut

theorem nextSegment?_false (tags : Tags) (text : Text) :
    nextSegment? tags false text = (Text.cutFirst tags.openTag text).map fun (gap, body) =>
      (⟨gap, (cutClose tags.closeTag body).1, (cutClose tags.closeTag body).2.1⟩,
        (cutClose tags.closeTag body).2.2) := by
  rw [nextSegment?]
  cases Text.cutFirst tags.openTag text with
  | none => rfl
  | some cut => rfl

theorem segmentsFrom_nil {tags : Tags} (ho : tags.openTag ≠ []) (afterEmpty : Bool) :
    segmentsFrom tags afterEmpty [] = ([], []) := by
  have hnext : nextSegment? tags afterEmpty [] = none := by
    simp [nextSegment?, Text.cutFirst, ho]
  rw [segmentsFrom]
  split
  · rfl
  · next h => simp [hnext] at h

/-- After an empty match a text goes on only between two empty markers. -/
def Resumes (tags : Tags) (afterEmpty : Bool) (text : Text) : Prop :=
  afterEmpty = true → tags.openTag = [] ∧ (tags.closeTag = [] ∨ text = [])

theorem resumes_of_nextSegment? {tags : Tags} {afterEmpty : Bool} {text after : Text}
    {segment : Segment} (h : nextSegment? tags afterEmpty text = some (segment, after)) :
    Resumes tags (segment.text tags).isEmpty after := by
  intro he
  have hclosed := closed_of_nextSegment? h
  simp only [Segment.text, Segment.body, List.isEmpty_iff, List.append_eq_nil_iff] at he
  obtain ⟨_, ⟨ho, _⟩, hc⟩ := he
  refine ⟨ho, ?_⟩
  cases hs : segment.closed with
  | true =>
    simp only [hs, if_true] at hc
    exact Or.inl hc
  | false => simpa [hs] using hclosed

/-- With an empty opening marker there are no gaps. -/
theorem isEmpty_text_of_nextSegment? {tags : Tags} {afterEmpty : Bool} {text after : Text}
    {segment : Segment} (h : nextSegment? tags afterEmpty text = some (segment, after)) :
    (segment.text tags).isEmpty = (segment.body tags.openTag tags.closeTag).isEmpty := by
  obtain ⟨body, hcut⟩ := gap_of_nextSegment? h
  cases ho : tags.openTag with
  | nil =>
    rw [ho, Text.cutFirst_nil] at hcut
    have hg : segment.gap = [] := (congrArg Prod.fst (Option.some.inj hcut)).symm
    rw [Segment.text, hg, ho, List.nil_append]
  | cons c rest => simp [Segment.text, Segment.body, ho]

theorem search_pattern {tags : Tags} {afterEmpty : Bool} {text : Text}
    (h : Resumes tags afterEmpty text) :
    tags.pattern.search afterEmpty text =
      (nextSegment? tags afterEmpty text).map
        fun (s, after) => (s.gap, Pattern.ofSegment tags s after) := by
  cases afterEmpty with
  | false => exact Pattern.search_pattern_false tags text
  | true => exact Pattern.search_pattern_true (h rfl).1 (h rfl).2

theorem findFrom_pattern {tags : Tags} {afterEmpty : Bool} {text : Text}
    (h : Resumes tags afterEmpty text) (offset : Nat) :
    (tags.pattern.findFrom offset afterEmpty text).map Fragment.ofFound =
      place tags offset (segmentsFrom tags afterEmpty text).1 := by
  fun_induction segmentsFrom tags afterEmpty text generalizing offset with
  | case1 afterEmpty text hnext =>
    have hs := search_pattern h
    rw [hnext] at hs
    rw [Pattern.findFrom_of_none hs]
    rfl
  | case2 afterEmpty text segment after hnext _ more tail hmore ih =>
    have hs := search_pattern h
    rw [hnext] at hs
    have hrest := ih (resumes_of_nextSegment? hnext)
      (offset + segment.gap.length + (segment.body tags.openTag tags.closeTag).length)
    rw [hmore, isEmpty_text_of_nextSegment? hnext] at hrest
    have hclosed : (!(if segment.closed then tags.closeTag else []).isEmpty) = segment.closed := by
      have hc := closed_of_nextSegment? hnext
      cases hs : segment.closed with
      | true =>
        simp only [hs, if_true] at hc
        simpa using hc
      | false => simp
    rw [Pattern.findFrom_of_some hs, List.map_cons, place]
    simp only [Pattern.ofSegment, hrest]
    simp [Fragment.ofFound, hclosed]

/-- The fragments of a text are the matches of the pattern of its markers. -/
theorem extract_eq_findAll (tags : Tags) (text : Text) :
    extract tags text = (tags.pattern.findAll text).map Fragment.ofFound :=
  (findFrom_pattern (fun h => absurd h (by decide)) 0).symm

/-- After an empty match the next one takes a character. -/
example : ((Tags.mk [] [] [] []).pattern.findAll "ab".toList).map (fun m => (m.start, m.stop)) =
    [(0, 0), (0, 1), (1, 1), (1, 2), (2, 2)] := by cbv

end Inlay
