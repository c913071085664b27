import Inlay.Text.Basic
import Mathlib.Data.Char
import Mathlib.Data.List.Lex
import Mathlib.Data.List.Sort

/-!
# Sorting by texts

Texts are ordered by the code points of their characters. What is sorted by a text stands in that
order (`pairwise_sorted`), and in strict order if no text comes twice.
-/

namespace Inlay.Text

theorem atMost_iff {a b : Text} : atMost a b = true ↔ a ≤ b := by
  simp [atMost]

theorem pairwise_sorted {α : Type} (key : α → Text) (xs : List α) :
    (xs.mergeSort fun a b => atMost (key a) (key b)).Pairwise fun a b => key a ≤ key b := by
  have hsorted : (xs.mergeSort fun a b => atMost (key a) (key b)).Pairwise
      fun a b => atMost (key a) (key b) = true := by
    apply List.pairwise_mergeSort
    · intro a b c hab hbc
      rw [atMost_iff] at hab hbc ⊢
      exact hab.trans hbc
    · intro a b
      rw [Bool.or_eq_true, atMost_iff, atMost_iff]
      exact le_total _ _
  exact hsorted.imp fun h => atMost_iff.1 h

theorem pairwise_sorted_of_nodup {xs : List Text} (h : xs.Nodup) :
    (xs.mergeSort atMost).Pairwise (· < ·) := by
  have hnodup : (xs.mergeSort atMost).Nodup := (List.mergeSort_perm _ _).nodup_iff.2 h
  exact (hnodup.and (pairwise_sorted id xs)).imp fun hab => lt_of_le_of_ne hab.2 hab.1

end Inlay.Text
