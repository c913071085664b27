import Inlay.Proofs.Path.Climbing
import Inlay.Proofs.Path.Mirroring

/-!
# The way to a path below a folder

In absolute form a path below a folder goes on from it, whatever the spelling of either, and the way
to it is what comes after the folder. The path that a way spells from the folder is again that path
(`components_absolute_descend`, `relative_of_components`).
-/

namespace Inlay.Path

theorem isAbsolute_join_pieces {names : List Text} (h : ∀ n ∈ names, IsPiece n) :
    isAbsolute (Text.join '/' names) = false := by
  cases names with
  | nil => rfl
  | cons n names =>
    have hn := h n (List.mem_cons_self ..)
    cases names with
    | nil => simpa [Text.join] using isAbsolute_piece hn
    | cons m names => rw [Text.join_cons_cons, isAbsolute_append hn.1, isAbsolute_piece hn]

theorem join_way (root : Path) {way : List Text} (hne : way ≠ []) (h : ∀ n ∈ way, IsName n) :
    join root (Text.join '/' way) = descend root way := by
  have hp := isPiece_of_isName h
  by_cases hr : root = []
  · rw [hr, join_nil, descend_empty hp]
  · rw [join_of_ne_nil hr (isAbsolute_join_pieces hp), descend_eq hr hne hp]

theorem components_absolute_descend {cwd : Path} (hc : isAbsolute cwd = true) (root : Path)
    {names : List Text} (h : ∀ n ∈ names, IsName n) :
    components (absolute cwd (descend root names)) = components (absolute cwd root) ++ names := by
  have hp := isPiece_of_isName h
  have hlead : isAbsolute (descend root names) = isAbsolute root := by
    by_cases hr : root = []
    · rw [hr, descend_empty hp, isAbsolute_join_pieces hp]
      rfl
    · exact isAbsolute_descend hr hp
  have horigin : origin cwd (descend root names) = origin cwd root := by
    rw [origin, origin, hlead]
  rw [components_absolute hc, components_absolute hc, horigin, ← climb_components,
    components_descend root hp, climb_append, climb_components, climb_names h, List.reverse_reverse]

theorem diverge_append (xs ys : List Text) : diverge xs (xs ++ ys) = ([], ys) := by
  induction xs with
  | nil => cases ys <;> rfl
  | cons x xs ih => simp [diverge, ih]

theorem diverge_suffix (xs ys : List Text) : (diverge xs ys).2 <:+ ys := by
  induction xs generalizing ys with
  | nil => exact List.suffix_refl ys
  | cons x xs ih =>
    cases ys with
    | nil => exact List.suffix_refl []
    | cons y ys =>
      unfold diverge
      split
      · exact (ih ys).trans (List.suffix_cons y ys)
      · exact List.suffix_refl _

/-- The way from one folder to any path is spelled from there. -/
theorem isAbsolute_relative (path start : Path) : isAbsolute (relative path start) = false := by
  have hdown := diverge_suffix (components start) (components path)
  unfold relative
  split
  next up down hd =>
    rw [hd] at hdown
    have hp : ∀ step ∈ List.replicate up.length above ++ down, IsPiece step := by
      intro step hstep
      rcases List.mem_append.1 hstep with hs | hs
      · rw [List.eq_of_mem_replicate hs]
        decide
      · exact isPiece_of_mem_components (hdown.subset hs)
    split
    · rfl
    · exact isAbsolute_join_pieces hp

theorem exists_join_eq_append (folder : Path) {path : Path} (h : isAbsolute path = false) :
    ∃ rest, join folder path = folder ++ rest := by
  by_cases hf : folder = []
  · exact ⟨path, by rw [hf, join_nil, List.nil_append]⟩
  · exact ⟨gap folder ++ path, by rw [join_of_ne_nil hf h, List.append_assoc]⟩

theorem relative_of_components {path start : Path} {way : List Text} (hne : way ≠ [])
    (h : components path = components start ++ way) :
    relative path start = Text.join '/' way := by
  simp only [relative, h, diverge_append, List.length_nil, List.replicate_zero, List.nil_append]

/-! ### From a path to itself and to paths outside -/

theorem prefix_of_diverge {xs ys : List Text} (h : (diverge xs ys).1 = []) : xs <+: ys := by
  induction xs generalizing ys with
  | nil => exact List.nil_prefix
  | cons x xs ih =>
    cases ys with
    | nil => simp [diverge] at h
    | cons y ys =>
      unfold diverge at h
      split at h
      · next he => exact List.cons_prefix_cons.2 ⟨he, ih h⟩
      · simp at h

theorem relative_self {path start : Path} (h : components path = components start) :
    relative path start = here := by
  have hd := diverge_append (components start) []
  rw [List.append_nil] at hd
  simp only [relative, h, hd]
  rfl

/-- The way to a path outside starts with a step above. -/
theorem relative_leaves {path start : Path} (h : ¬ components start <+: components path) :
    relative path start = above ∨ above ++ ['/'] <+: relative path start := by
  unfold relative
  split
  next up down hd =>
    cases up with
    | nil => exact absurd (prefix_of_diverge (congrArg Prod.fst hd)) h
    | cons u up =>
      simp only [List.length_cons, List.replicate_succ, List.cons_append]
      cases List.replicate up.length above ++ down with
      | nil => exact Or.inl rfl
      | cons step steps =>
        refine Or.inr ⟨Text.join '/' (step :: steps), ?_⟩
        simp only [Text.join_cons_cons, List.append_assoc, List.singleton_append]

theorem components_absolute_join_here {cwd : Path} (hc : isAbsolute cwd = true) (root : Path) :
    components (absolute cwd (join root here)) = components (absolute cwd root) := by
  have hhere (done : List Text) : climb true done.reverse (Text.split '/' here) = done := by
    simp [Text.split, climb, here]
  by_cases hr : root = []
  · rw [hr, join_nil, components_absolute hc, components_absolute hc]
    rfl
  · have hj := join_of_ne_nil hr (show isAbsolute here = false from rfl)
    have ho : origin cwd (join root here) = origin cwd root := by
      rw [origin, origin, hj, List.append_assoc, isAbsolute_append hr]
    rw [components_absolute hc, components_absolute hc, ho, hj, climb_gap hr, hhere]

end Inlay.Path
