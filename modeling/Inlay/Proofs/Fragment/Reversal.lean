import Inlay.Proofs.Fragment.Concatenation

/-!
# Reversed markers

A text whose markers have been replaced is cut into the same segments by the new markers, if the
new opening marker was not in the text and does not overlap itself (`segments_reversed`). So
replacing the new markers by the old ones gives the text back (`transform_reversed`).
-/

namespace Inlay

/-- The markers of generated files in the place of those of source files, and the reverse. -/
def Tags.reversed (tags : Tags) : Tags :=
  ⟨tags.targetOpen, tags.targetClose, tags.openTag, tags.closeTag⟩

/-- The inner text of a fragment ends where it did, whatever comes after the closing marker. After
a fragment that is open at its end there must be nothing. -/
theorem cutClose_replace (closeTag body other : Text)
    (h : (cutClose closeTag body).2.1 = false → closeTag = [] ∨ other = []) :
    cutClose closeTag ((cutClose closeTag body).1 ++
      (if (cutClose closeTag body).2.1 then closeTag else []) ++ other) =
        ((cutClose closeTag body).1, (cutClose closeTag body).2.1, other) := by
  cases hc : Text.cutFirst closeTag body with
  | none =>
    have hcut : cutClose closeTag body = (body, false, []) := by rw [cutClose, hc]
    rw [hcut] at h ⊢
    have hne : closeTag ≠ [] := by
      rintro rfl
      simp [Text.cutFirst_nil] at hc
    have hother : other = [] := (h rfl).resolve_left hne
    simp only [Bool.false_eq_true, if_false, List.append_nil, hother]
    exact hcut
  | some cut =>
    obtain ⟨inner, after⟩ := cut
    have hcut : cutClose closeTag body = (inner, !closeTag.isEmpty, after) := by
      simp only [cutClose, hc]
    have hclose : (if (!closeTag.isEmpty) = true then closeTag else []) = closeTag := by
      cases closeTag <;> rfl
    rw [hcut]
    simp only [hclose, List.append_assoc]
    simp only [cutClose, Text.cutFirst_replace hc other]

section
variable {tags : Tags} (hclose : tags.targetClose = tags.closeTag)
  (hborder : Text.Unbordered tags.targetOpen)
include hclose hborder

theorem nextSegment?_reversed {text after other : Text} {s : Segment}
    (h : nextSegment? tags false text = some (s, after)) (hgap : ¬ tags.targetOpen <:+: s.gap)
    (hother : s.closed = false → tags.closeTag = [] ∨ other = []) :
    nextSegment? tags.reversed false (s.rendered tags id ++ other) = some (s, other) := by
  rw [nextSegment?_false] at h
  obtain ⟨⟨gap, body⟩, -, he⟩ := Option.map_eq_some_iff.1 h
  obtain ⟨rfl, -⟩ := Prod.mk.inj he
  have hopen : Text.cutFirst tags.reversed.openTag (Segment.rendered tags id
      ⟨gap, (cutClose tags.closeTag body).1, (cutClose tags.closeTag body).2.1⟩ ++ other) =
      some (gap, (cutClose tags.closeTag body).1 ++
        (if (cutClose tags.closeTag body).2.1 then tags.closeTag else []) ++ other) := by
    simp only [Segment.rendered, Tags.reversed, hclose, id, List.append_assoc]
    exact hborder.cutFirst_append hgap _
  have hreversed : tags.reversed.closeTag = tags.closeTag := hclose
  rw [nextSegment?_false, hopen, hreversed, Option.map_some]
  simp only [cutClose_replace tags.closeTag body other hother]

/-- Induction on the segments: what is left after each of them does not hold the new marker
either. -/
theorem segmentsFrom_reversed (ho : tags.openTag ≠ []) {text : Text}
    (habsent : ¬ tags.targetOpen <:+: text) :
    segmentsFrom tags.reversed false ((segmentsFrom tags false text).1.flatMap
      (·.rendered tags id) ++ (segmentsFrom tags false text).2) = segmentsFrom tags false text := by
  have ht : tags.reversed.openTag ≠ [] := fun hnil =>
    habsent (by rw [show tags.targetOpen = [] from hnil]; exact List.nil_infix)
  generalize hf : false = afterEmpty
  fun_induction segmentsFrom tags afterEmpty text with
  | case1 afterEmpty text hnext =>
    subst hf
    have hcut : Text.cutFirst tags.reversed.openTag text = none :=
      Text.cutFirst_none_of_not_infix habsent
    have hnone : nextSegment? tags.reversed false text = none := by
      rw [nextSegment?_false, hcut, Option.map_none]
    exact segmentsFrom_of_none hnone
  | case2 afterEmpty text segment after hnext _ more tail hmore ih =>
    subst hf
    have htext := text_append_of_nextSegment? hnext
    have hgap : ¬ tags.targetOpen <:+: segment.gap := fun hin => habsent (by
      rw [← htext, Segment.text, List.append_assoc]
      exact hin.trans (List.prefix_append _ _).isInfix)
    have hafter : ¬ tags.targetOpen <:+: after := fun hin => habsent (by
      rw [← htext]
      exact hin.trans (List.suffix_append _ _).isInfix)
    have hrest := ih hafter (isEmpty_text ho segment).symm
    rw [hmore, isEmpty_text ho] at hrest
    have hother : segment.closed = false → tags.closeTag = [] ∨
        more.flatMap (·.rendered tags id) ++ tail = [] := by
      intro hopen
      have hlast := closed_of_nextSegment? hnext
      simp only [hopen, Bool.false_eq_true, if_false] at hlast
      refine hlast.imp_right fun hnil => ?_
      rw [hnil, segmentsFrom_nil ho] at hmore
      obtain ⟨rfl, rfl⟩ := Prod.mk.inj hmore
      rfl
    have hsegment := nextSegment?_reversed hclose hborder hnext hgap hother
    rw [List.flatMap_cons, List.append_assoc, segmentsFrom_of_some hsegment, isEmpty_text ht, hrest]

theorem segments_reversed (ho : tags.openTag ≠ []) {text : Text}
    (habsent : ¬ tags.targetOpen <:+: text) :
    segments tags.reversed ((segments tags text).1.flatMap (·.rendered tags id) ++
      (segments tags text).2) = segments tags text :=
  segmentsFrom_reversed hclose hborder ho habsent

theorem transform_reversed (ho : tags.openTag ≠ []) {text : Text}
    (habsent : ¬ tags.targetOpen <:+: text) (file file' : Path) :
    ∃ generated, transform .passthrough tags file text = .ok generated ∧
      transform .passthrough tags.reversed file' generated = .ok text := by
  have hthere := @transform_of_ok .passthrough id tags text (fun _ _ => rfl) file
  refine ⟨_, hthere, ?_⟩
  have hback := @transform_of_ok .passthrough id tags.reversed
    ((segments tags text).1.flatMap (·.rendered tags id) ++ (segments tags text).2)
    (fun _ _ => rfl) file'
  have hrendered : Segment.rendered tags.reversed id = Segment.text tags := by
    funext s
    simp only [Segment.rendered, Segment.text, Segment.body, Tags.reversed, id, List.append_assoc]
  rw [hback, segments_reversed hclose hborder ho habsent, hrendered, join_segments]

end

/-- Replacing the markers of a text, and then the new ones by the old ones, gives the text again, if
it was without the opening marker of generated files. -/
theorem markers_reversible {text : Text} (h : ¬ "<?php".toList <:+: text) (file file' : Path) :
    ∃ generated,
      transform .passthrough ⟨"<?tea".toList, "?>".toList, "<?php".toList, "?>".toList⟩ file text =
        .ok generated ∧
      transform .passthrough ⟨"<?php".toList, "?>".toList, "<?tea".toList, "?>".toList⟩ file'
        generated = .ok text :=
  transform_reversed rfl (by decide) (by decide) h file file'

/-- A piece of the new marker in front of the old one, an opening marker inside a fragment, and a
fragment that is open at the end. -/
theorem markers_reversible_of_nested :
    ¬ "<?php".toList <:+: "<?ph<?teaa<?tea?>p?><?tea?".toList ∧
      ∃ generated,
        transform .passthrough ⟨"<?tea".toList, "?>".toList, "<?php".toList, "?>".toList⟩ []
          "<?ph<?teaa<?tea?>p?><?tea?".toList = .ok generated ∧
        generated = "<?ph<?phpa<?tea?>p?><?php?".toList ∧
        transform .passthrough ⟨"<?php".toList, "?>".toList, "<?tea".toList, "?>".toList⟩ []
          generated = .ok "<?ph<?teaa<?tea?>p?><?tea?".toList := by
  have habsent : ¬ "<?php".toList <:+: "<?ph<?teaa<?tea?>p?><?tea?".toList := by decide
  obtain ⟨generated, hthere, hback⟩ := markers_reversible habsent [] []
  have hvalue : transform .passthrough
      ⟨"<?tea".toList, "?>".toList, "<?php".toList, "?>".toList⟩ []
      "<?ph<?teaa<?tea?>p?><?tea?".toList = .ok "<?ph<?phpa<?tea?>p?><?php?".toList := by cbv
  exact ⟨habsent, generated, hthere, Except.ok.inj (hthere.symm.trans hvalue), hback⟩

end Inlay
