import Inlay.Proofs.Volume.Blocked

/-!
# Adding files below a place

What a run of additions leaves behind: the files that were made, the folders around them, and
everything that was there before. Ways that do not lead through each other stay free for each other
(`Added.free`, `Added.open`).
-/

namespace Inlay.Volume

variable [Alphabet]

/-- After attempts at some ways below a place, of which some have made files. -/
structure Added (v w : Volume) (place : Place) (ways : List (List Text))
    (made : List (List Text × Bytes)) : Prop where
  tree : w.Tree
  extends' : v.Extends w
  present : ∀ m ∈ made, w.get? (place ++ m.1) = some (.file m.2)
  only : ∀ p entry, w.get? p = some entry → v.get? p = some entry ∨
    (entry = .folder ∧ ∃ way ∈ ways, p <+: place ++ way.dropLast) ∨
    ∃ m ∈ made, p = place ++ m.1 ∧ entry = .file m.2

variable {v w u : Volume} {place : Place} {ways : List (List Text)}
  {made : List (List Text × Bytes)}

theorem Tree.added (h : v.Tree) (place : Place) : v.Added v place [] [] :=
  ⟨h, Extends.refl v, by simp, fun _ _ he => Or.inl he⟩

theorem Added.skip (h : v.Added w place ways made) (way : List Text) :
    v.Added w place (ways ++ [way]) made := by
  refine ⟨h.tree, h.extends', h.present, fun p entry hp => ?_⟩
  rcases h.only p entry hp with hv | ⟨hf, way', hm, hpre⟩ | hm
  · exact Or.inl hv
  · exact Or.inr (Or.inl ⟨hf, way', List.mem_append_left _ hm, hpre⟩)
  · exact Or.inr (Or.inr hm)

theorem Added.grow (h : v.Added w place ways made) {names : List Text}
    (hg : w.Grown u place names) (name : Text) :
    v.Added u place (ways ++ [names ++ [name]]) made := by
  have hs := h.skip (names ++ [name])
  refine ⟨hg.tree, h.extends'.trans hg.extends', fun m hm => hg.extends'.get? _ _ (h.present m hm),
    fun p entry hp => ?_⟩
  rcases hg.only p entry hp with hw | ⟨hf, hpre⟩
  · exact hs.only p entry hw
  · exact Or.inr (Or.inl ⟨hf, names ++ [name], by simp, by rwa [List.dropLast_concat]⟩)

theorem Added.file (h : v.Added w place ways made) {names : List Text} {name : Text}
    (hg : w.Grown u place names) (hn : Path.IsName name) (hus : Path.IsUsable name)
    (hw : w.get? (place ++ (names ++ [name])) = none) (content : Bytes) :
    v.Added (u.put (place ++ (names ++ [name])) (.file content)) place (ways ++ [names ++ [name]])
      (made ++ [(names ++ [name], content)]) := by
  have hu := (hg.get?_beyond name).trans hw
  have ha := h.grow hg name
  have hne : place ++ (names ++ [name]) ≠ [] := by simp
  have hx := extends_put hne hu (.file content)
  have htree : (u.put (place ++ (names ++ [name])) (.file content)).Tree := by
    rw [← List.append_assoc] at hu ⊢
    exact hg.tree.put hg.folder hn hus rfl (by rw [hu]; simp)
  refine ⟨htree, ha.extends'.trans hx, fun m hm => ?_, fun p entry hp => ?_⟩
  · rcases List.mem_append.1 hm with hm | hm
    · exact hx.get? _ _ (ha.present m hm)
    · rw [List.mem_singleton.1 hm, get?_put hne, if_pos rfl]
  · rw [get?_put hne] at hp
    split at hp
    · next heq =>
      simp only [Option.some.injEq] at hp
      exact Or.inr (Or.inr ⟨_, List.mem_append_right _ (List.mem_singleton_self _), heq, hp.symm⟩)
    · rcases ha.only p entry hp with hv | hf | ⟨m, hm, he⟩
      · exact Or.inl hv
      · exact Or.inr (Or.inl hf)
      · exact Or.inr (Or.inr ⟨m, List.mem_append_left _ hm, he⟩)

/-! ### Ways that are still open -/

theorem Added.free (h : v.Added w place ways made) {way : List Text}
    (hv : v.get? (place ++ way) = none) (hw : ∀ way' ∈ ways, ¬ way <+: way'.dropLast)
    (hm : ∀ m ∈ made, way ≠ m.1) : w.get? (place ++ way) = none := by
  by_cases he : w.get? (place ++ way) = none
  · exact he
  · obtain ⟨entry, he⟩ := Option.ne_none_iff_exists'.1 he
    rcases h.only _ _ he with ho | ⟨_, way', hway, hpre⟩ | ⟨m, hmem, heq, _⟩
    · simp [hv] at ho
    · exact absurd ((List.prefix_append_right_inj place).1 hpre) (hw way' hway)
    · exact absurd (List.append_cancel_left heq) (hm m hmem)

theorem Added.open (h : v.Added w place ways made) {names : List Text}
    (hv : ∀ lead, lead <+: names → ¬ v.FileAt (place ++ lead))
    (hm : ∀ m ∈ made, ¬ m.1 <+: names) {lead : List Text} (hl : lead <+: names) :
    ¬ w.FileAt (place ++ lead) := by
  rintro ⟨content, he⟩
  rcases h.only _ _ he with ho | ⟨hf, _⟩ | ⟨m, hmem, heq, _⟩
  · exact hv lead hl ⟨content, ho⟩
  · simp at hf
  · rw [List.append_cancel_left heq] at hl
    exact hm m hmem hl

/-! ### What has not changed -/

theorem Added.file_iff (h : v.Added w place ways made) {p : Place} {content : Bytes} :
    w.get? p = some (.file content) ↔
      v.get? p = some (.file content) ∨ ∃ m ∈ made, p = place ++ m.1 ∧ content = m.2 := by
  constructor
  · intro hp
    rcases h.only _ _ hp with hv | ⟨hf, _⟩ | ⟨m, hm, heq, he⟩
    · exact Or.inl hv
    · simp at hf
    · simp only [Entry.file.injEq] at he
      exact Or.inr ⟨m, hm, heq, he⟩
  · rintro (hv | ⟨m, hm, rfl, rfl⟩)
    · exact h.extends'.get? _ _ hv
    · exact h.present m hm

theorem Added.get?_of_not_below (h : v.Added w place ways made) (hv : v.Tree)
    (hplace : v.get? place = some .folder) {p : Place}
    (hp : ∀ rest, rest ≠ [] → p ≠ place ++ rest) (hm : ∀ m ∈ made, m.1 ≠ []) :
    w.get? p = v.get? p := by
  cases he : w.get? p with
  | none =>
    cases hv' : v.get? p with
    | none => rfl
    | some entry => rw [h.extends'.get? _ _ hv'] at he; simp at he
  | some entry =>
    rcases h.only _ _ he with ho | ⟨hf, way, _, hpre⟩ | ⟨m, hmem, heq, _⟩
    · exact ho.symm
    · have hfolder : v.get? p = some .folder := by
        rcases List.prefix_or_prefix_of_prefix hpre (List.prefix_append place way.dropLast) with
          hs | ⟨rest, hs⟩
        · obtain ⟨rest, hr⟩ := hs
          by_cases hz : rest = []
          · rw [hz, List.append_nil] at hr
            rw [hr, hplace]
          · rw [← hr] at hplace
            exact hv.folder_of_below hplace hz
        · by_cases hz : rest = []
          · rw [hz, List.append_nil] at hs
            rw [← hs, hplace]
          · exact absurd hs.symm (hp rest hz)
      rw [hfolder, hf]
    · exact absurd heq (hp m.1 (hm m hmem))

end Inlay.Volume
