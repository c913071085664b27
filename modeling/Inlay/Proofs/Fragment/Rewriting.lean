import Inlay.Fragment.Transform
import Inlay.Proofs.Fragment.Segments
import Inlay.Proofs.Text.Occurrence
import Mathlib

/-!
# Rewritten texts

A transformed text is the text itself with other markers and with the output of the compiler in the
place of each inner text; what is between the fragments stays (`fragments_rewritten`).
-/

namespace Inlay

/-! ### Gaps and closing markers -/

section
variable {tags : Tags} (ho : tags.openTag ≠ [])
include ho

theorem isEmpty_text (s : Segment) : (s.text tags).isEmpty = false := by
  simp [Segment.text, Segment.body, ho]

theorem gaps_segmentsFrom (text : Text) :
    (∀ s ∈ (segmentsFrom tags false text).1, ¬ tags.openTag <:+: s.gap) ∧
      ¬ tags.openTag <:+: (segmentsFrom tags false text).2 := by
  generalize hf : false = afterEmpty
  fun_induction segmentsFrom tags afterEmpty text with
  | case1 afterEmpty text hnext =>
    rw [← hf, nextSegment?_false, Option.map_eq_none_iff] at hnext
    exact ⟨by simp, Text.not_infix_of_cutFirst_none hnext⟩
  | case2 afterEmpty text segment after hnext _ more tail hmore ih =>
    obtain ⟨body, hcut⟩ := gap_of_nextSegment? hnext
    rw [hmore] at ih
    obtain ⟨hgaps, htail⟩ := ih (isEmpty_text ho segment).symm
    exact ⟨List.forall_mem_cons.2 ⟨Text.not_infix_of_cutFirst ho hcut, hgaps⟩, htail⟩

/-- A segment that no marker closes takes the rest of the text. -/
theorem closed_segmentsFrom (hc : tags.closeTag ≠ []) (afterEmpty : Bool) (text : Text) :
    ∀ s ∈ (segmentsFrom tags afterEmpty text).1.dropLast, s.closed = true := by
  fun_induction segmentsFrom tags afterEmpty text with
  | case1 afterEmpty text hnext => simp
  | case2 afterEmpty text segment after hnext _ more tail hmore ih =>
    rw [hmore] at ih
    cases more with
    | nil => simp
    | cons s more =>
      have hclosed : segment.closed = true := by
        have hafter := closed_of_nextSegment? hnext
        cases hs : segment.closed with
        | true => rfl
        | false =>
          simp only [hs, Bool.false_eq_true, if_false] at hafter
          rw [hafter.resolve_left hc, segmentsFrom_nil ho] at hmore
          simp at hmore
      rw [List.dropLast_cons_cons]
      exact List.forall_mem_cons.2 ⟨hclosed, ih⟩

end

/-! ### The result -/

theorem map_inner_place (tags : Tags) (offset : Nat) (segments : List Segment) :
    (place tags offset segments).map (·.inner) = segments.map (·.inner) := by
  induction segments generalizing offset with
  | nil => rfl
  | cons s rest ih => rw [place, List.map_cons, List.map_cons, ih]

/-- A segment with the markers of generated files and its inner text compiled. -/
def Segment.rendered (tags : Tags) (render : Text → Text) (s : Segment) : Text :=
  s.gap ++ tags.targetOpen ++ render s.inner ++ if s.closed then tags.targetClose else []

theorem exists_joinParts_parts (tags : Tags) (render : Text → Text) (s : Segment)
    (rest : List Value) (index : Nat) :
    ∃ next, joinParts index
      ((Rendered.mk s.gap (.text (render s.inner)) s.closed).parts tags ++ rest) =
        (joinParts next rest).map (s.rendered tags render ++ ·) := by
  cases hs : s.closed with
  | true =>
    refine ⟨index + 4, ?_⟩
    simp only [Rendered.parts, if_true, List.cons_append, List.nil_append, joinParts]
    cases joinParts (index + 4) rest with
    | error f => rfl
    | ok t => simp [Except.map, Segment.rendered, hs]
  | false =>
    refine ⟨index + 3, ?_⟩
    simp only [Rendered.parts, Bool.false_eq_true, if_false, List.cons_append, List.nil_append,
      joinParts]
    cases joinParts (index + 3) rest with
    | error f => rfl
    | ok t => simp [Except.map, Segment.rendered, hs]

theorem joinParts_rendered (tags : Tags) (render : Text → Text) (segments : List Segment)
    (tail : Text) (index : Nat) :
    joinParts index
      ((segments.map fun s => Rendered.mk s.gap (.text (render s.inner)) s.closed).flatMap
        (·.parts tags) ++ [.text tail]) =
      .ok (segments.flatMap (·.rendered tags render) ++ tail) := by
  induction segments generalizing index with
  | nil => simp [joinParts, Except.map]
  | cons s rest ih =>
    rw [List.map_cons, List.flatMap_cons, List.flatMap_cons, List.append_assoc, List.append_assoc]
    obtain ⟨next, hs⟩ := exists_joinParts_parts tags render s
      ((rest.map fun s => Rendered.mk s.gap (.text (render s.inner)) s.closed).flatMap
        (·.parts tags) ++ [.text tail]) index
    rw [hs, ih next]
    rfl

theorem compileSegments_of_ok {compiler : Compiler} {render : Text → Text}
    {segments : List Segment}
    (h : ∀ s ∈ segments, compiler.compile s.inner = .ok (.text (render s.inner)))
    (tags : Tags) (file : Path) (index line : Nat) :
    Id.run (compileSegments (m := Id) (fun source => pure (compiler.compile source)) tags file
      index line segments) =
      .ok (segments.map fun s => ⟨s.gap, .text (render s.inner), s.closed⟩) := by
  induction segments generalizing index line with
  | nil => rfl
  | cons s rest ih =>
    have hs := h s (List.mem_cons_self ..)
    have hrest := ih (fun x hx => h x (List.mem_cons_of_mem _ hx))
    simp only [compileSegments, Id.run_bind, Id.run_pure, hs, hrest]
    rfl

theorem transform_of_ok {compiler : Compiler} {render : Text → Text} {tags : Tags} {text : Text}
    (h : ∀ f ∈ extract tags text, compiler.compile f.inner = .ok (.text (render f.inner)))
    (file : Path) :
    transform compiler tags file text =
      .ok ((segments tags text).1.flatMap (·.rendered tags render) ++ (segments tags text).2) := by
  have hsegments : ∀ s ∈ (segments tags text).1,
      compiler.compile s.inner = .ok (.text (render s.inner)) := by
    intro s hs
    have hinner := List.mem_map_of_mem (f := (·.inner)) hs
    rw [← map_inner_place tags 0] at hinner
    obtain ⟨f, hf, he⟩ := List.mem_map.1 hinner
    rw [← he]
    exact h f hf
  simp only [transform, transformWith, Id.run_bind, Id.run_pure, compileSegments_of_ok hsegments,
    Except.bind]
  exact joinParts_rendered tags render _ _ 0

/-- The matches of the pattern of the markers cut a text into fragments and gaps. The transformed
text has the same gaps, the other markers, and the output of the compiler for each inner text. No
gap contains the opening marker, and only the last fragment may be without a closing one, unless
markers are empty. A compiler that changes nothing, with the same markers, gives the text back. -/
theorem fragments_rewritten (tags : Tags) (file : Path) (text : Text) :
    (∀ (compiler : Compiler) (render : Text → Text),
      (∀ f ∈ extract tags text, compiler.compile f.inner = .ok (.text (render f.inner))) →
      ∃ (segments : List Segment) (tail : Text),
        (tags.pattern.findAll text).map Fragment.ofFound = place tags 0 segments ∧
        text = segments.flatMap (fun s => s.gap ++ tags.openTag ++ s.inner ++
          if s.closed then tags.closeTag else []) ++ tail ∧
        transform compiler tags file text = .ok (segments.flatMap (fun s => s.gap ++
          tags.targetOpen ++ render s.inner ++ if s.closed then tags.targetClose else []) ++ tail) ∧
        (tags.openTag ≠ [] →
          (∀ s ∈ segments, ¬ tags.openTag <:+: s.gap) ∧ ¬ tags.openTag <:+: tail) ∧
        (tags.openTag ≠ [] → tags.closeTag ≠ [] → ∀ s ∈ segments.dropLast, s.closed = true)) ∧
    (tags.targetOpen = tags.openTag → tags.targetClose = tags.closeTag →
      transform .passthrough tags file text = .ok text) := by
  have hjoin : text = (segments tags text).1.flatMap (fun s => s.gap ++ tags.openTag ++ s.inner ++
      if s.closed then tags.closeTag else []) ++ (segments tags text).2 := by
    have hj := (join_segments tags text).symm
    simp only [Segment.text, Segment.body, ← List.append_assoc] at hj
    exact hj
  refine ⟨fun compiler render hrender => ⟨_, _, (extract_eq_findAll tags text).symm, hjoin,
    transform_of_ok hrender file, fun ho => gaps_segmentsFrom ho text,
    fun ho hc => closed_segmentsFrom ho hc false text⟩, fun hopen hclose => ?_⟩
  have hsame := @transform_of_ok .passthrough id tags text (fun _ _ => rfl) file
  have hid : (segments tags text).1.flatMap (·.rendered tags id) ++ (segments tags text).2 =
      text := by
    conv => rhs; rw [hjoin]
    simp only [Segment.rendered, hopen, hclose, id]
  rw [hsame, hid]

/-- A fragment that is reversed and one that no marker closes. -/
theorem fragments_rewritten_of_unclosed :
    (∃ (segments : List Segment) (tail : Text),
      "a<xy>b<zw".toList = segments.flatMap (fun s => s.gap ++ ['<'] ++ s.inner ++
        if s.closed then ['>'] else []) ++ tail ∧
      "a[yx]b[wz".toList = segments.flatMap (fun s => s.gap ++ ['['] ++ s.inner.reverse ++
        if s.closed then [']'] else []) ++ tail ∧
      (∀ s ∈ segments, ¬ ['<'] <:+: s.gap) ∧ ∀ s ∈ segments.dropLast, s.closed = true) ∧
    transform .passthrough ⟨['<'], ['>'], ['<'], ['>']⟩ [] "a<xy>b<zw".toList =
      .ok "a<xy>b<zw".toList := by
  refine ⟨?_, (fragments_rewritten ⟨['<'], ['>'], ['<'], ['>']⟩ [] "a<xy>b<zw".toList).2 rfl rfl⟩
  obtain ⟨segments, tail, _, htext, hresult, hgaps, hclosed⟩ :=
    (fragments_rewritten ⟨['<'], ['>'], ['['], [']']⟩ [] "a<xy>b<zw".toList).1
      ⟨"Reverse", [], fun source => .ok (.text source.reverse)⟩ List.reverse fun _ _ => rfl
  have hvalue : transform ⟨"Reverse", [], fun source => .ok (.text source.reverse)⟩
      ⟨['<'], ['>'], ['['], [']']⟩ [] "a<xy>b<zw".toList = .ok "a[yx]b[wz".toList := by cbv
  exact ⟨segments, tail, htext, Except.ok.inj (hvalue.symm.trans hresult),
    (hgaps (by decide)).1, hclosed (by decide) (by decide)⟩

end Inlay
