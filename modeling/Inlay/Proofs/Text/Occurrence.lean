import Inlay.Text.Basic
import Mathlib.Data.List.Infix

/-!
# Occurrences in a text

Where a pattern stands in a text, by position. The first cut is at the least position
(`firstAt_of_cutFirst`), so what is cut off before a pattern does not contain it.
-/

namespace Inlay.Text

/-- The least position from the cursor on at which the pattern stands. -/
structure FirstAt (pattern text : Text) (cursor position : Nat) : Prop where
  cursor_le : cursor ≤ position
  stands : pattern <+: text.drop position
  least : ∀ i, cursor ≤ i → pattern <+: text.drop i → position ≤ i

/-- The pattern stands nowhere from the cursor on. -/
def AbsentFrom (pattern text : Text) (cursor : Nat) : Prop :=
  ∀ i, cursor ≤ i → ¬ pattern <+: text.drop i

theorem FirstAt.unique {pattern text : Text} {cursor i j : Nat}
    (h : FirstAt pattern text cursor i) (h' : FirstAt pattern text cursor j) : i = j :=
  Nat.le_antisymm (h.least j h'.cursor_le h'.stands) (h'.least i h.cursor_le h.stands)

theorem FirstAt.not_absent {pattern text : Text} {cursor i : Nat}
    (h : FirstAt pattern text cursor i) : ¬ AbsentFrom pattern text cursor :=
  fun ha => ha i h.cursor_le h.stands

theorem length_le_of_cutFirst {pattern text before after lead rest : Text}
    (h : cutFirst pattern text = some (before, after)) (ht : text = lead ++ pattern ++ rest) :
    before.length ≤ lead.length := by
  induction text generalizing before lead with
  | nil =>
    have hb := (List.append_eq_nil_iff.1 (eq_append_of_cutFirst h).symm).1
    rw [(List.append_eq_nil_iff.1 hb).1]
    exact Nat.zero_le _
  | cons c text ih =>
    simp only [cutFirst] at h
    split at h
    · obtain ⟨rfl, rfl⟩ := Prod.mk.inj (Option.some.inj h)
      exact Nat.zero_le _
    · next hp =>
      obtain ⟨⟨b, a⟩, hcut, he⟩ := Option.map_eq_some_iff.1 h
      obtain ⟨rfl, rfl⟩ := Prod.mk.inj he
      cases lead with
      | nil => exact absurd (List.isPrefixOf_iff_prefix.2 ⟨rest, by simpa using ht.symm⟩) hp
      | cons d lead =>
        have htail : text = lead ++ pattern ++ rest := by simpa using (List.cons.inj ht).2
        exact Nat.succ_le_succ (ih hcut htail)

/-- A pattern further on stands after what is between the cursor and its position. -/
theorem exists_drop_eq {pattern text : Text} {cursor i : Nat} (hi : cursor ≤ i)
    (h : pattern <+: text.drop i) :
    ∃ rest, text.drop cursor = (text.drop cursor).take (i - cursor) ++ pattern ++ rest := by
  obtain ⟨rest, hrest⟩ := h
  have hdrop : text.drop i = (text.drop cursor).drop (i - cursor) := by
    rw [List.drop_drop, Nat.add_sub_cancel' hi]
  exact ⟨rest, by rw [List.append_assoc, hrest, hdrop, List.take_append_drop]⟩

theorem firstAt_of_cutFirst {pattern text before after : Text} {cursor : Nat}
    (h : cutFirst pattern (text.drop cursor) = some (before, after)) :
    FirstAt pattern text cursor (cursor + before.length) where
  cursor_le := Nat.le_add_right _ _
  stands := by
    rw [← List.drop_drop, eq_append_of_cutFirst h, List.append_assoc, List.drop_left]
    exact List.prefix_append _ _
  least i hi hp := by
    obtain ⟨rest, ht⟩ := exists_drop_eq hi hp
    have hl := length_le_of_cutFirst h ht
    rw [List.length_take] at hl
    omega

theorem absentFrom_of_cutFirst {pattern text : Text} {cursor : Nat}
    (h : cutFirst pattern (text.drop cursor) = none) : AbsentFrom pattern text cursor := by
  intro i hi hp
  obtain ⟨rest, ht⟩ := exists_drop_eq hi hp
  exact cutFirst_eq_none_iff.1 h _ rest ht

theorem drop_of_cutFirst {pattern text before after : Text} {cursor : Nat}
    (h : cutFirst pattern (text.drop cursor) = some (before, after)) :
    text.drop (cursor + before.length + pattern.length) = after := by
  rw [← List.drop_drop, ← List.drop_drop, eq_append_of_cutFirst h, List.append_assoc,
    List.drop_left, List.drop_left]

theorem extract_of_cutFirst {pattern text before after : Text} {cursor : Nat}
    (h : cutFirst pattern (text.drop cursor) = some (before, after)) :
    text.extract cursor (cursor + before.length) = before := by
  rw [List.extract_eq_take_drop, eq_append_of_cutFirst h, Nat.add_sub_cancel_left,
    List.append_assoc, List.take_left]

/-! ### What is cut off -/

theorem not_infix_of_cutFirst {pattern text before after : Text} (hne : pattern ≠ [])
    (h : cutFirst pattern text = some (before, after)) : ¬ pattern <:+: before := by
  rintro ⟨lead, rest, rfl⟩
  have ht := eq_append_of_cutFirst h
  simp only [List.append_assoc] at ht
  rw [← List.append_assoc] at ht
  have hl := length_le_of_cutFirst h ht
  have hp := List.length_pos_iff.2 hne
  simp only [List.length_append] at hl
  omega

theorem not_infix_of_cutFirst_none {pattern text : Text} (h : cutFirst pattern text = none) :
    ¬ pattern <:+: text := by
  rintro ⟨lead, rest, rfl⟩
  exact cutFirst_eq_none_iff.1 h lead rest rfl

theorem cutFirst_none_of_not_infix {pattern text : Text} (h : ¬ pattern <:+: text) :
    cutFirst pattern text = none :=
  cutFirst_eq_none_iff.2 fun before after ht => h ⟨before, after, ht.symm⟩

/-- A single character is found at its first occurrence. -/
theorem cutFirst_singleton_eq_some_iff {c : Char} {text before after : Text} :
    cutFirst [c] text = some (before, after) ↔ text = before ++ c :: after ∧ c ∉ before := by
  induction text generalizing before with
  | nil => simp [cutFirst]
  | cons d rest ih =>
    simp only [cutFirst, List.isPrefixOf_cons_cons, List.isPrefixOf_nil_left, Bool.and_true,
      beq_iff_eq]
    by_cases hd : c = d
    · subst hd
      cases before with
      | nil => simp [eq_comm]
      | cons b before =>
        simp only [if_pos, List.length_singleton, List.drop_succ_cons, List.drop_zero]
        refine iff_of_false (by simp) fun h => h.2 ?_
        rw [(List.cons.inj h.1).1]
        exact List.mem_cons_self ..
    · rw [if_neg hd, Option.map_eq_some_iff]
      cases before with
      | nil => exact iff_of_false (by simp) fun h => hd (List.cons.inj h.1).1.symm
      | cons b before =>
        simp only [Prod.exists, Prod.mk.injEq, List.cons.injEq, List.cons_append, List.mem_cons,
          not_or]
        constructor
        · rintro ⟨before', after', hcut, ⟨rfl, rfl⟩, rfl⟩
          obtain ⟨he, hc⟩ := ih.1 hcut
          exact ⟨⟨rfl, he⟩, hd, hc⟩
        · rintro ⟨⟨rfl, he⟩, _, hc⟩
          exact ⟨before, after, ih.2 ⟨he, hc⟩, ⟨rfl, rfl⟩, rfl⟩

/-! ### Joined texts -/

/-- A cut that no occurrence of the pattern crosses. -/
def SafeCut (pattern a b : Text) : Prop :=
  ∀ i, i < a.length → a.length < i + pattern.length → ¬ pattern <+: (a ++ b).drop i

instance (pattern a b : Text) : Decidable (SafeCut pattern a b) :=
  inferInstanceAs (Decidable
    (∀ i, i < a.length → a.length < i + pattern.length → ¬ pattern <+: (a ++ b).drop i))

theorem SafeCut.of_append {pattern lead a b : Text} (h : SafeCut pattern (lead ++ a) b) :
    SafeCut pattern a b := by
  intro i hi hover hstands
  refine h (lead.length + i) ?_ ?_ ?_
  · rw [List.length_append]
    omega
  · rw [List.length_append]
    omega
  · rwa [List.append_assoc, List.drop_append, List.drop_of_length_le (Nat.le_add_right _ _),
      Nat.add_sub_cancel_left, List.nil_append]

/-- What follows a text does not change its first cut. -/
theorem cutFirst_append {pattern text before after : Text}
    (h : cutFirst pattern text = some (before, after)) (b : Text) :
    cutFirst pattern (text ++ b) = some (before, after ++ b) := by
  induction text generalizing before with
  | nil =>
    simp only [cutFirst] at h
    split at h
    · next hp =>
      obtain ⟨rfl, rfl⟩ := Prod.mk.inj (Option.some.inj h)
      obtain rfl := List.isEmpty_iff.1 hp
      cases b with
      | nil => rfl
      | cons c b => rfl
    · simp at h
  | cons c rest ih =>
    simp only [cutFirst] at h
    rw [List.cons_append, cutFirst]
    split at h
    · next hp =>
      obtain ⟨rfl, rfl⟩ := Prod.mk.inj (Option.some.inj h)
      have hpre := List.isPrefixOf_iff_prefix.1 hp
      have hlong : pattern.isPrefixOf (c :: (rest ++ b)) = true :=
        List.isPrefixOf_iff_prefix.2 (hpre.trans (List.prefix_append (c :: rest) b))
      rw [if_pos hlong, ← List.cons_append, List.drop_append_of_le_length hpre.length_le]
    · next hp =>
      obtain ⟨⟨before', after'⟩, hcut, he⟩ := Option.map_eq_some_iff.1 h
      obtain ⟨rfl, rfl⟩ := Prod.mk.inj he
      -- The pattern fits into what is left of the text, so it would stand here without `b` too.
      have hfits := length_of_cutFirst hcut
      have hlong : ¬ pattern.isPrefixOf (c :: (rest ++ b)) = true := fun hlong =>
        hp (List.isPrefixOf_iff_prefix.2 (List.prefix_of_prefix_length_le
          (List.isPrefixOf_iff_prefix.1 hlong) (List.prefix_append (c :: rest) b)
          (by rw [List.length_cons]; omega)))
      rw [if_neg hlong, ih hcut]
      rfl

/-- Behind a text without the pattern the first cut is that of what follows. -/
theorem cutFirst_append_of_none {pattern a b : Text} (h : cutFirst pattern a = none)
    (hcut : SafeCut pattern a b) :
    cutFirst pattern (a ++ b) =
      (cutFirst pattern b).map fun (before, after) => (a ++ before, after) := by
  induction a with
  | nil => simp
  | cons c a ih =>
    simp only [cutFirst] at h
    split at h
    · simp at h
    · next hp =>
      have hlong : ¬ pattern.isPrefixOf (c :: (a ++ b)) = true := by
        intro hlong
        have hstands := List.isPrefixOf_iff_prefix.1 hlong
        by_cases hfits : pattern.length ≤ (c :: a).length
        · exact hp (List.isPrefixOf_iff_prefix.2 (List.prefix_of_prefix_length_le hstands
            (List.prefix_append (c :: a) b) hfits))
        · exact hcut 0 (by simp) (by omega) hstands
      have hrest : SafeCut pattern a b :=
        SafeCut.of_append (show SafeCut pattern ([c] ++ a) b from hcut)
      rw [List.cons_append, cutFirst, if_neg hlong, ih (Option.map_eq_none_iff.1 h) hrest,
        Option.map_map]
      rfl

/-- What follows the first occurrence does not matter. -/
theorem cutFirst_replace {pattern text before after : Text}
    (h : cutFirst pattern text = some (before, after)) (other : Text) :
    cutFirst pattern (before ++ (pattern ++ other)) = some (before, other) := by
  have htext := eq_append_of_cutFirst h
  cases hself : cutFirst pattern (before ++ pattern) with
  | none => exact absurd (by simp) (cutFirst_eq_none_iff.1 hself before [])
  | some cut =>
    obtain ⟨b, a⟩ := cut
    have hlong := cutFirst_append hself after
    rw [← htext, h, Option.some.injEq, Prod.mk.injEq] at hlong
    obtain ⟨rfl, hafter⟩ := hlong
    have ha : a = [] := by simpa using hafter
    rw [ha] at hself
    rw [← List.append_assoc]
    exact cutFirst_append hself other

/-! ### Patterns that do not overlap themselves -/

/-- No proper end of the pattern is also its beginning. -/
def Unbordered (pattern : Text) : Prop :=
  ∀ n, n < pattern.length → 0 < n → ¬ pattern.drop n <+: pattern

instance (pattern : Text) : Decidable (Unbordered pattern) :=
  inferInstanceAs (Decidable (∀ n, n < pattern.length → 0 < n → ¬ pattern.drop n <+: pattern))

theorem cutFirst_self (pattern rest : Text) :
    cutFirst pattern (pattern ++ rest) = some ([], rest) := by
  cases pattern with
  | nil => cases rest <;> rfl
  | cons c pattern =>
    have hp : (c :: pattern).isPrefixOf (c :: (pattern ++ rest)) = true :=
      List.isPrefixOf_iff_prefix.2 (List.prefix_append (c :: pattern) rest)
    rw [List.cons_append, cutFirst, if_pos hp, ← List.cons_append, List.drop_left]

theorem Unbordered.safeCut {pattern : Text} (h : Unbordered pattern) (a rest : Text) :
    SafeCut pattern a (pattern ++ rest) := by
  intro i hi hover hstands
  -- Past the end of `a` the occurrence goes on at the start of the pattern itself.
  have hdrop : (a ++ (pattern ++ rest)).drop i = a.drop i ++ (pattern ++ rest) :=
    List.drop_append_of_le_length hi.le
  rw [hdrop] at hstands
  have hlen : (a.drop i).length = a.length - i := List.length_drop
  have hend : pattern.drop (a.length - i) <+: pattern ++ rest := by
    have hshift := hstands.drop (a.length - i)
    rwa [← hlen, List.drop_left, hlen] at hshift
  refine h (a.length - i) (by omega) (by omega) ?_
  exact List.prefix_of_prefix_length_le hend (List.prefix_append pattern rest)
    (by rw [List.length_drop]; omega)

/-- The first occurrence behind a text that the pattern does not stand in. -/
theorem Unbordered.cutFirst_append {pattern gap : Text} (h : Unbordered pattern)
    (hgap : ¬ pattern <:+: gap) (rest : Text) :
    cutFirst pattern (gap ++ (pattern ++ rest)) = some (gap, rest) := by
  have hnone : cutFirst pattern gap = none := cutFirst_none_of_not_infix hgap
  rw [cutFirst_append_of_none hnone (h.safeCut gap rest), cutFirst_self]
  simp

end Inlay.Text
