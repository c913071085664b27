import Inlay.Proofs.Fragment.Segments
import Inlay.Proofs.Text.Occurrence
import Mathlib

/-!
# Fragments by position

A scan goes from one opening marker to the first closing marker after it, and on from there. It has
one result (`Scan.unique`), the fragments of the text (`fragments_eq_scan`).
-/

namespace Inlay

/-- The fragments of a text from a cursor on. The first opening marker starts a fragment, which
ends with the first closing marker after it or else with the text. -/
inductive Scan (tags : Tags) (text : Text) : Nat → List Fragment → Prop
  | none {cursor : Nat} (ho : Text.AbsentFrom tags.openTag text cursor) : Scan tags text cursor []
  | closed {cursor start stop : Nat} {more : List Fragment}
      (ho : Text.FirstAt tags.openTag text cursor start)
      (hc : Text.FirstAt tags.closeTag text (start + tags.openTag.length) stop)
      (hmore : Scan tags text (stop + tags.closeTag.length) more) :
      Scan tags text cursor
        (⟨text.extract (start + tags.openTag.length) stop, true, start,
          stop + tags.closeTag.length⟩ :: more)
  | unclosed {cursor start : Nat} (ho : Text.FirstAt tags.openTag text cursor start)
      (hc : Text.AbsentFrom tags.closeTag text (start + tags.openTag.length)) :
      Scan tags text cursor
        [⟨text.drop (start + tags.openTag.length), false, start, text.length⟩]

theorem Scan.unique {tags : Tags} {text : Text} {cursor : Nat} {xs ys : List Fragment}
    (h : Scan tags text cursor xs) (h' : Scan tags text cursor ys) : xs = ys := by
  induction h generalizing ys with
  | none ho =>
    cases h' with
    | none _ => rfl
    | closed ho' _ _ => exact absurd ho ho'.not_absent
    | unclosed ho' _ => exact absurd ho ho'.not_absent
  | closed ho hc _ ih =>
    cases h' with
    | none ho' => exact absurd ho' ho.not_absent
    | closed ho' hc' hmore' =>
      obtain rfl := ho.unique ho'
      obtain rfl := hc.unique hc'
      rw [ih hmore']
    | unclosed ho' hc' =>
      obtain rfl := ho.unique ho'
      exact absurd hc' hc.not_absent
  | unclosed ho hc =>
    cases h' with
    | none ho' => exact absurd ho' ho.not_absent
    | closed ho' hc' _ =>
      obtain rfl := ho.unique ho'
      exact absurd hc hc'.not_absent
    | unclosed ho' _ =>
      obtain rfl := ho.unique ho'
      rfl

/-! ### The scan of a text -/

/-- The scan of a text whose opening marker is not empty, from any cursor on. -/
theorem scan_segmentsFrom {tags : Tags} (ho : tags.openTag ≠ []) (hc : tags.closeTag ≠ [])
    {text rest : Text} {cursor : Nat} (hrest : text.drop cursor = rest) :
    Scan tags text cursor (place tags cursor (segmentsFrom tags false rest).1) := by
  generalize hf : false = afterEmpty
  fun_induction segmentsFrom tags afterEmpty rest generalizing cursor with
  | case1 afterEmpty rest hnext =>
    rw [← hf, nextSegment?_false, Option.map_eq_none_iff, ← hrest] at hnext
    exact .none (Text.absentFrom_of_cutFirst hnext)
  | case2 afterEmpty rest segment after hnext _ more tail hmore ih =>
    rw [← hf, nextSegment?_false, Option.map_eq_some_iff] at hnext
    obtain ⟨⟨gap, body⟩, hopen, he⟩ := hnext
    rw [← hrest] at hopen
    have hfirst := Text.firstAt_of_cutFirst hopen
    have hbody := Text.drop_of_cutFirst hopen
    cases hclose : Text.cutFirst tags.closeTag body with
    | none =>
      have hcut : cutClose tags.closeTag body = (body, false, []) := by
        simp only [cutClose, hclose]
      simp only [hcut] at he
      obtain ⟨rfl, rfl⟩ := Prod.mk.inj he
      -- The fragment runs to the end of the text, where no marker stands any more.
      obtain rfl : more = [] := by
        rw [segmentsFrom_nil ho] at hmore
        exact (congrArg Prod.fst hmore).symm
      have hend : text.length =
          cursor + gap.length + (Segment.body tags.openTag tags.closeTag ⟨gap, body, false⟩).length
          := by
        have hl := Text.length_of_cutFirst hopen
        have hp := List.length_pos_iff.2 ho
        simp only [List.length_drop] at hl
        simp only [Segment.body, List.length_append, Bool.false_eq_true, if_false, List.length_nil]
        omega
      have hscan := Scan.unclosed hfirst (Text.absentFrom_of_cutFirst (hbody ▸ hclose))
      rw [hbody, hend] at hscan
      exact hscan
    | some cut =>
      obtain ⟨inner, rest'⟩ := cut
      have hcut : cutClose tags.closeTag body = (inner, true, rest') := by
        simp [cutClose, hclose, hc]
      simp only [hcut] at he
      obtain ⟨rfl, rfl⟩ := Prod.mk.inj he
      rw [← hbody] at hclose
      have hstop : cursor + gap.length +
          (Segment.body tags.openTag tags.closeTag ⟨gap, inner, true⟩).length =
          cursor + gap.length + tags.openTag.length + inner.length + tags.closeTag.length := by
        simp only [Segment.body, List.length_append, if_true]
        omega
      have hmore' := ih (Text.drop_of_cutFirst hclose) (by simp [Segment.text, Segment.body, ho])
      rw [hmore] at hmore'
      have hscan := Scan.closed hfirst (Text.firstAt_of_cutFirst hclose) hmore'
      rw [Text.extract_of_cutFirst hclose] at hscan
      simp only [place, hstop]
      exact hscan

/-- With markers that are not empty, the matches of their pattern are what the scan from the start
of the text emits, and these are the fragments of the text. -/
theorem fragments_eq_scan {tags : Tags} (ho : tags.openTag ≠ []) (hc : tags.closeTag ≠ [])
    (text : Text) :
    extract tags text = (tags.pattern.findAll text).map Fragment.ofFound ∧
      ∀ fragments, Scan tags text 0 fragments ↔ fragments = extract tags text := by
  have hscan : Scan tags text 0 (extract tags text) :=
    scan_segmentsFrom ho hc (List.drop_zero (l := text))
  refine ⟨extract_eq_findAll tags text, fun fragments => ⟨fun h => h.unique hscan, ?_⟩⟩
  rintro rfl
  exact hscan

/-- Markers that overlap themselves and each other, and a fragment that no marker closes. -/
theorem fragments_eq_scan_of_overlapping :
    ((Tags.mk "aa".toList "ab".toList [] []).pattern.findAll "aaaabaab".toList).map
        Fragment.ofFound = [⟨['a'], true, 0, 5⟩, ⟨['b'], false, 5, 8⟩] ∧
      Scan ⟨"aa".toList, "ab".toList, [], []⟩ "aaaabaab".toList 0
        [⟨['a'], true, 0, 5⟩, ⟨['b'], false, 5, 8⟩] := by
  have hextract : extract ⟨"aa".toList, "ab".toList, [], []⟩ "aaaabaab".toList =
      [⟨['a'], true, 0, 5⟩, ⟨['b'], false, 5, 8⟩] := by cbv
  have ho : (Tags.mk "aa".toList "ab".toList [] []).openTag ≠ [] := by decide
  obtain ⟨hfind, hscan⟩ := fragments_eq_scan ho (by decide) "aaaabaab".toList
  exact ⟨hfind.symm.trans hextract, (hscan _).2 hextract.symm⟩

end Inlay
