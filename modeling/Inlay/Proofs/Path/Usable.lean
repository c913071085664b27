import Inlay.Path.Refusal
import Inlay.Proofs.Path.Outputs

/-!
# Texts that are no paths

A text is refused for single characters: no zero, and no surrogate that stands for no byte. So a
path is accepted if and only if every piece of it is (`isUsable_descend`).
-/

namespace Inlay.Path

variable [Alphabet]

/-- Neither a path nor a part of one that is refused. -/
def IsUsable (text : Text) : Prop :=
  ∀ c ∈ text, isRefused c = false ∧ c ≠ '\x00'

instance (text : Text) : Decidable (IsUsable text) :=
  List.decidableBAll (fun c => isRefused c = false ∧ c ≠ '\x00') text

theorem refusal?_eq_none_iff {path : Path} : refusal? path = none ↔ IsUsable path := by
  unfold refusal? IsUsable
  split
  · next fault h =>
    have hnot : ¬ ∀ c ∈ path, isRefused c = false := fun hall => by
      rw [surrogateFault?_eq_none_iff.2 hall] at h
      simp at h
    simp only [reduceCtorEq, false_iff]
    exact fun hall => hnot fun c hc => (hall c hc).1
  · next h =>
    have hall := surrogateFault?_eq_none_iff.1 h
    simp only [ite_eq_right_iff, reduceCtorEq, imp_false, List.contains_iff_mem]
    exact ⟨fun hz c hc => ⟨hall c hc, fun he => hz (he ▸ hc)⟩, fun hu hz => (hu _ hz).2 rfl⟩

theorem isUsable_append {a b : Text} : IsUsable (a ++ b) ↔ IsUsable a ∧ IsUsable b :=
  List.forall_mem_append

theorem IsUsable.subset {a b : Text} (h : IsUsable b) (hs : a ⊆ b) : IsUsable a :=
  fun c hc => h c (hs hc)

theorem isRefused_of_toNat_lt {c : Char} (h : c.toNat < 0xe000) : isRefused c = false := by
  rw [isRefused, Alphabet.isSurrogate_of_toNat_lt h, Bool.false_and]

theorem isUsable_of_toNat_lt {text : Text} (h : ∀ c ∈ text, c.toNat < 0xe000 ∧ c ≠ '\x00') :
    IsUsable text := fun c hc => ⟨isRefused_of_toNat_lt (h c hc).1, (h c hc).2⟩

theorem isUsable_slash : IsUsable ['/'] :=
  isUsable_of_toNat_lt (List.forall_mem_singleton.2 (by decide))

theorem isUsable_here : IsUsable here :=
  isUsable_of_toNat_lt (List.forall_mem_singleton.2 (by decide))

theorem isUsable_above : IsUsable above :=
  isUsable_of_toNat_lt (List.forall_mem_cons.2 ⟨by decide, List.forall_mem_singleton.2 (by decide)⟩)

theorem isUsable_of_mem_split {path : Path} (h : IsUsable path) :
    ∀ n ∈ Text.split '/' path, IsUsable n := fun _ hn =>
  h.subset (Text.sublist_of_mem_split hn).subset

theorem isUsable_of_mem_components {path : Path} (h : IsUsable path) :
    ∀ n ∈ components path, IsUsable n := fun n hn =>
  isUsable_of_mem_split h n (List.mem_filter.1 hn).1

theorem isUsable_of_components {path : Path} (h : ∀ n ∈ components path, IsUsable n) :
    IsUsable path := by
  intro c hc
  rw [← Text.join_split '/' path] at hc
  rcases Text.mem_join hc with rfl | ⟨piece, hp, hc⟩
  · exact isUsable_slash _ (List.mem_singleton_self _)
  · have hne : piece ≠ [] := List.ne_nil_of_mem hc
    exact h piece (List.mem_filter.2 ⟨hp, by simpa using hne⟩) c hc

theorem isUsable_folder {path : Path} (h : IsUsable path) : IsUsable (folder path) := by
  obtain ⟨tail, he, _⟩ := exists_append_folder path
  rw [← Text.cutLast_append (· == '/') path, ← cut, he] at h
  exact (isUsable_append.1 (isUsable_append.1 h).1).1

theorem isUsable_join {a b : Path} (ha : IsUsable a) (hb : IsUsable b) : IsUsable (join a b) := by
  unfold join
  split
  · exact hb
  · split
    · exact isUsable_append.2 ⟨ha, hb⟩
    · exact isUsable_append.2 ⟨ha, isUsable_append (a := ['/']).2 ⟨isUsable_slash, hb⟩⟩

/-- A path in absolute form has no components of its own. -/
theorem isUsable_normalize {path : Path} (ha : isAbsolute path = true) (h : IsUsable path) :
    IsUsable (normalize path) := by
  refine isUsable_of_components fun n hn => ?_
  rw [components_normalize ha] at hn
  rcases mem_climb (by simp) hn with hn | ⟨hn, _⟩
  · simp at hn
  · exact isUsable_of_mem_split h n hn

theorem isUsable_absolute {folder path : Path} (ha : isAbsolute folder = true)
    (hf : isAbsolute path = true ∨ IsUsable folder) (h : IsUsable path) :
    IsUsable (absolute folder path) := by
  have hne : folder ≠ [] := by
    rintro rfl
    simp [isAbsolute] at ha
  by_cases hp : isAbsolute path = true
  · rw [absolute, if_pos hp]
    exact isUsable_normalize hp h
  · have hj : isAbsolute (join folder path) = true := by
      rw [join_of_ne_nil hne (by simpa using hp), List.append_assoc, isAbsolute_append hne, ha]
    rw [absolute, if_neg hp]
    exact isUsable_normalize hj (isUsable_join (hf.resolve_left hp) h)

theorem isUsable_descend {root : Path} (hr : IsUsable root) {names : List Text}
    (hn : ∀ n ∈ names, IsUsable n) : IsUsable (descend root names) := by
  induction names generalizing root with
  | nil => exact hr
  | cons n names ih =>
    obtain ⟨hfirst, hrest⟩ := List.forall_mem_cons.1 hn
    exact ih (isUsable_join hr hfirst) hrest

theorem isUsable_of_descend {root : Path} {names : List Text} (hn : ∀ n ∈ names, IsPiece n)
    (h : IsUsable (descend root names)) : ∀ n ∈ names, IsUsable n := fun n hm =>
  isUsable_of_mem_components h n (by
    rw [components_descend root hn]
    exact List.mem_append_right _ hm)

end Inlay.Path
