import Inlay.Text.Blank
import Mathlib.Data.List.TakeWhile

/-!
# Pieces of a text

Splitting at a character, joining again, cutting behind the last of some characters, and trimming.
`split` turns an append around the character into an append of pieces, and on pieces without the
character it undoes `join`.
-/

namespace Inlay.Text

/-! ### Splitting and joining -/

theorem split_ne_nil (c : Char) (t : Text) : split c t ≠ [] := by
  cases t with
  | nil => simp [split]
  | cons d rest =>
    simp only [split]
    split
    · simp
    · split <;> simp

theorem split_cons_of_ne {c d : Char} (h : d ≠ c) (t : Text) :
    ∃ piece pieces, split c t = piece :: pieces ∧ split c (d :: t) = (d :: piece) :: pieces := by
  cases hs : split c t with
  | nil => exact absurd hs (split_ne_nil c t)
  | cons piece pieces =>
    refine ⟨piece, pieces, rfl, ?_⟩
    simp only [split, if_neg h, hs]

theorem not_mem_of_mem_split {c : Char} {t piece : Text} (h : piece ∈ split c t) : c ∉ piece := by
  induction t generalizing piece with
  | nil =>
    simp only [split, List.mem_singleton] at h
    simp [h]
  | cons d rest ih =>
    by_cases hd : d = c
    · simp only [split, if_pos hd, List.mem_cons] at h
      rcases h with rfl | h
      · simp
      · exact ih h
    · obtain ⟨p, ps, hs, hc⟩ := split_cons_of_ne hd rest
      rw [hc, List.mem_cons] at h
      rcases h with rfl | h
      · have hp := ih (hs ▸ List.mem_cons_self ..)
        simp only [List.mem_cons, not_or]
        exact ⟨fun e => hd e.symm, hp⟩
      · exact ih (hs ▸ List.mem_cons_of_mem _ h)

theorem sublist_of_mem_split {c : Char} {t piece : Text} (h : piece ∈ split c t) :
    piece.Sublist t := by
  induction t generalizing piece with
  | nil =>
    simp only [split, List.mem_singleton] at h
    simp [h]
  | cons d rest ih =>
    by_cases hd : d = c
    · simp only [split, if_pos hd, List.mem_cons] at h
      rcases h with rfl | h
      · exact List.nil_sublist _
      · exact (ih h).trans (List.sublist_cons_self d rest)
    · obtain ⟨p, ps, hs, hc⟩ := split_cons_of_ne hd rest
      rw [hc, List.mem_cons] at h
      rcases h with rfl | h
      · exact (ih (hs ▸ List.mem_cons_self ..)).cons_cons d
      · exact (ih (hs ▸ List.mem_cons_of_mem _ h)).trans (List.sublist_cons_self d rest)

theorem split_of_not_mem {c : Char} {t : Text} (h : c ∉ t) : split c t = [t] := by
  induction t with
  | nil => rfl
  | cons d rest ih =>
    simp only [List.mem_cons, not_or] at h
    simp only [split, if_neg (Ne.symm h.1), ih h.2]

theorem split_append_cons (c : Char) (a b : Text) :
    split c (a ++ c :: b) = split c a ++ split c b := by
  induction a with
  | nil => simp [split]
  | cons d a ih =>
    by_cases hd : d = c
    · simp only [List.cons_append, split, if_pos hd, ih]
    · obtain ⟨p, ps, hs, hc⟩ := split_cons_of_ne hd a
      rw [List.cons_append, hc]
      simp only [split, if_neg hd, ih, hs, List.cons_append]

theorem join_cons_cons (c : Char) (p q : Text) (ps : List Text) :
    join c (p :: q :: ps) = p ++ c :: join c (q :: ps) := by
  simp [join]

theorem join_append (c : Char) {ps qs : List Text} (hp : ps ≠ []) (hq : qs ≠ []) :
    join c (ps ++ qs) = join c ps ++ c :: join c qs := by
  induction ps with
  | nil => exact absurd rfl hp
  | cons p ps ih =>
    cases ps with
    | nil =>
      cases qs with
      | nil => exact absurd rfl hq
      | cons q qs => simp [join]
    | cons p' ps =>
      have h := ih (by simp)
      simp only [List.cons_append] at h ⊢
      rw [join_cons_cons, join_cons_cons, h]
      simp

theorem split_join {c : Char} {ps : List Text} (hne : ps ≠ []) (h : ∀ p ∈ ps, c ∉ p) :
    split c (join c ps) = ps := by
  induction ps with
  | nil => exact absurd rfl hne
  | cons p ps ih =>
    have hp := h p (List.mem_cons_self ..)
    cases ps with
    | nil =>
      simp only [join, List.intercalate_singleton]
      exact split_of_not_mem hp
    | cons q ps =>
      have hq := ih (by simp) fun r hr => h r (List.mem_cons_of_mem _ hr)
      rw [join_cons_cons, split_append_cons, split_of_not_mem hp, hq]
      rfl

theorem join_split (c : Char) (t : Text) : join c (split c t) = t := by
  induction t with
  | nil => rfl
  | cons d rest ih =>
    by_cases hd : d = c
    · obtain ⟨piece, pieces, hs⟩ := List.exists_cons_of_ne_nil (split_ne_nil c rest)
      rw [split, if_pos hd, hs, join_cons_cons, ← hs, ih, List.nil_append, hd]
    · obtain ⟨piece, pieces, hs, hc⟩ := split_cons_of_ne hd rest
      rw [hs] at ih
      rw [hc, ← ih]
      cases pieces with
      | nil => simp [join]
      | cons q qs => rw [join_cons_cons, join_cons_cons, List.cons_append]

theorem mem_join {c d : Char} {ps : List Text} (h : d ∈ join c ps) : d = c ∨ ∃ p ∈ ps, d ∈ p := by
  induction ps with
  | nil => simp [join] at h
  | cons p ps ih =>
    cases ps with
    | nil => exact Or.inr ⟨p, by simp, by simpa [join] using h⟩
    | cons q ps =>
      rw [join_cons_cons, List.mem_append, List.mem_cons] at h
      rcases h with h | h | h
      · exact Or.inr ⟨p, by simp, h⟩
      · exact Or.inl h
      · rcases ih h with h | ⟨r, hr, hd⟩
        · exact Or.inl h
        · exact Or.inr ⟨r, List.mem_cons_of_mem _ hr, hd⟩

/-! ### Cutting behind the last of some characters -/

theorem cutLast_of_forall {p : Char → Bool} {t : Text} (h : ∀ c ∈ t, p c = false) :
    cutLast p t = ([], t) := by
  have hall : ∀ c ∈ t.reverse, (!p c) = true := fun c hc => by simp [h c (List.mem_reverse.1 hc)]
  rw [cutLast, List.dropWhile_eq_nil_iff.2 hall, List.takeWhile_eq_self_iff.2 hall,
    List.reverse_reverse]
  rfl

theorem cutLast_append_cons {p : Char → Bool} {c : Char} (hc : p c = true) {tail : Text}
    (h : ∀ d ∈ tail, p d = false) (lead : Text) :
    cutLast p (lead ++ c :: tail) = (lead ++ [c], tail) := by
  have hall : ∀ d ∈ tail.reverse, (!p d) = true := fun d hd => by simp [h d (List.mem_reverse.1 hd)]
  have hrev : (lead ++ c :: tail).reverse = tail.reverse ++ c :: lead.reverse := by simp
  rw [cutLast, hrev, List.dropWhile_append_of_pos hall, List.takeWhile_append_of_pos hall]
  simp [hc]

theorem cases_last (p : Char → Bool) (t : Text) :
    (∀ c ∈ t, p c = false) ∨
      ∃ lead c tail, t = lead ++ c :: tail ∧ p c = true ∧ ∀ d ∈ tail, p d = false := by
  induction t with
  | nil => exact Or.inl (by simp)
  | cons c t ih =>
    rcases ih with hnone | ⟨lead, d, tail, rfl, hd, htail⟩
    · cases hc : p c with
      | true => exact Or.inr ⟨[], c, t, rfl, hc, hnone⟩
      | false => exact Or.inl (List.forall_mem_cons.2 ⟨hc, hnone⟩)
    · exact Or.inr ⟨c :: lead, d, tail, rfl, hd, htail⟩

/-- What stands in front of such a character does not matter to the rest. -/
theorem cutLast_append_of_pos {p : Char → Bool} {c : Char} (hc : p c = true) (lead t : Text) :
    cutLast p (lead ++ c :: t) = (lead ++ c :: (cutLast p t).1, (cutLast p t).2) := by
  rcases cases_last p t with hnone | ⟨mid, d, tail, rfl, hd, htail⟩
  · rw [cutLast_append_cons hc hnone, cutLast_of_forall hnone]
  · have happ : lead ++ c :: (mid ++ d :: tail) = lead ++ c :: mid ++ d :: tail := by simp
    rw [happ, cutLast_append_cons hd htail, cutLast_append_cons hd htail]
    simp

/-! ### Trimming -/

theorem trimEnd_append_of_all {p : Char → Bool} (t tail : Text) (h : ∀ c ∈ tail, p c = true) :
    trimEnd p (t ++ tail) = trimEnd p t := by
  simp only [trimEnd, List.reverse_append]
  rw [List.dropWhile_append_of_pos fun c hc => h c (List.mem_reverse.1 hc)]

theorem trimEnd_concat_of_neg {p : Char → Bool} {c : Char} (h : p c = false) (t : Text) :
    trimEnd p (t ++ [c]) = t ++ [c] := by
  simp [trimEnd, h]

theorem exists_trimEnd_append (p : Char → Bool) (t : Text) :
    ∃ tail, t = trimEnd p t ++ tail ∧ ∀ c ∈ tail, p c = true := by
  refine ⟨(t.reverse.takeWhile p).reverse, ?_, ?_⟩
  · rw [trimEnd, ← List.reverse_append, List.takeWhile_append_dropWhile, List.reverse_reverse]
  · intro c hc
    exact List.mem_takeWhile_imp (List.mem_reverse.1 hc)

theorem getLast?_trimEnd {p : Char → Bool} {t : Text} {c : Char}
    (h : (trimEnd p t).getLast? = some c) : p c = false := by
  rw [trimEnd, List.getLast?_reverse] at h
  exact head_dropWhile p t.reverse c h

theorem trimEnd_eq_self {p : Char → Bool} {t : Text} (h : ∀ c, t.getLast? = some c → p c = false) :
    trimEnd p t = t := by
  rcases List.eq_nil_or_concat t with rfl | ⟨t, c, rfl⟩
  · rfl
  · rw [List.concat_eq_append] at h ⊢
    exact trimEnd_concat_of_neg (h c (by simp)) t

theorem trimEnd_eq_nil_iff {p : Char → Bool} {t : Text} :
    trimEnd p t = [] ↔ ∀ c ∈ t, p c = true := by
  simp [trimEnd, List.dropWhile_eq_nil_iff]

/-- Only blanks are stripped. -/
theorem mem_strip_iff {c : Char} (h : isBlank c = false) (t : Text) : c ∈ strip t ↔ c ∈ t := by
  obtain ⟨tail, htrim, htail⟩ := exists_trimEnd_append isBlank (t.dropWhile isBlank)
  have hnot {blanks : Text} (hall : ∀ d ∈ blanks, isBlank d = true) : c ∉ blanks := fun hc => by
    simp [hall c hc] at h
  have hlead : c ∉ t.takeWhile isBlank := hnot fun d hd => List.mem_takeWhile_imp hd
  have hsplit : t.takeWhile isBlank ++ (strip t ++ tail) = t := by
    rw [strip, trim, ← htrim, List.takeWhile_append_dropWhile]
  have hmem : c ∈ t.takeWhile isBlank ++ (strip t ++ tail) ↔ c ∈ strip t := by
    simp only [List.mem_append, hlead, hnot htail, false_or, or_false]
  rw [← hmem, hsplit]

end Inlay.Text
