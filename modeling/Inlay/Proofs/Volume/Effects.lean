import Inlay.Proofs.Volume.Blocked

/-!
# Effects

What a step does to a volume, apart from the volume that it meets: the entries that it puts
(`Volume.Changed`). Effects that agree where they meet come to the same in every order
(`Volume.Merged`).
-/

namespace Inlay

/-- The entries that are put at some places; all others stay. -/
abbrev Effect := Place → Option Entry

namespace Effect

def nothing : Effect := fun _ => none

/-- The folders from a place down to the last of some names. -/
def folders (place : Place) (names : List Text) : Effect := fun p =>
  if place <+: p ∧ p <+: place ++ names then some .folder else none

def file (place : Place) (content : Bytes) : Effect := fun p =>
  if p = place then some (.file content) else none

/-- One effect after another one. -/
def after (second first : Effect) : Effect := fun p => (second p).or (first p)

def Agrees (e e' : Effect) : Prop :=
  ∀ p entry entry', e p = some entry → e' p = some entry' → entry = entry'

theorem of_after {e e' : Effect} {p : Place} {entry : Entry} (h : e'.after e p = some entry) :
    e' p = some entry ∨ e p = some entry := by
  unfold after at h
  cases he : e' p with
  | none => exact Or.inr (by simpa [he] using h)
  | some made => exact Or.inl (by simpa [he] using h)

end Effect

namespace Volume

variable [Alphabet]

/-- A volume after an effect. -/
structure Changed (v w : Volume) (e : Effect) : Prop where
  tree : v.Tree → w.Tree
  persists : v.Persists w
  get? : ∀ p, w.get? p = (e p).or (v.get? p)

variable {v w u : Volume} {e e' : Effect} {es es' : List Effect} {p : Place} {entry : Entry}

theorem changed_nothing (v : Volume) : v.Changed v Effect.nothing :=
  ⟨fun h => h, Persists.refl v, fun _ => rfl⟩

theorem Changed.trans (h : v.Changed w e) (h' : w.Changed u e') : v.Changed u (e'.after e) := by
  refine ⟨fun hv => h'.tree (h.tree hv), h.persists.trans h'.persists, ?_⟩
  intro p
  rw [h'.get?, h.get?, Effect.after, Option.or_assoc]

theorem Changed.get?_of_some (h : v.Changed w e) (he : e p = some entry) :
    w.get? p = some entry := by
  rw [h.get?, he, Option.some_or]

theorem Changed.get?_of_none (h : v.Changed w e) (he : e p = none) : w.get? p = v.get? p := by
  rw [h.get?, he, Option.none_or]

theorem Grown.changed {place : Place} {names : List Text} (hg : v.Grown w place names)
    (h : v.Tree) (hp : v.get? place = some .folder) :
    v.Changed w (Effect.folders place names) := by
  refine ⟨fun _ => hg.tree, hg.extends'.persists, ?_⟩
  intro p
  rw [hg.get?_eq h hp, Effect.folders]
  split
  · rfl
  · rfl

theorem changed_file {place : Place} {name : Text} (hp : v.get? place = some .folder)
    (hn : Path.IsName name) (hu : Path.IsUsable name)
    (hf : v.get? (place ++ [name]) ≠ some .folder) (content : Bytes) :
    v.Changed (v.put (place ++ [name]) (.file content))
      (Effect.file (place ++ [name]) content) := by
  have hne : place ++ [name] ≠ [] := by simp
  refine ⟨fun h => h.put hp hn hu rfl hf, persists_put hne hf content, ?_⟩
  intro p
  rw [get?_put hne, Effect.file]
  split
  · rfl
  · rfl

/-! ### Several effects -/

/-- A volume after some effects, in whatever order. -/
structure Merged (v w : Volume) (es : List Effect) : Prop where
  tree : v.Tree → w.Tree
  persists : v.Persists w
  made : ∀ e ∈ es, ∀ p entry, e p = some entry → w.get? p = some entry
  other : ∀ p, (∀ e ∈ es, e p = none) → w.get? p = v.get? p

theorem merged_nil (v : Volume) : v.Merged v [] :=
  ⟨fun h => h, Persists.refl v, by simp, fun _ _ => rfl⟩

theorem Merged.step (h : v.Merged w es) (hc : w.Changed u e) (ha : ∀ e' ∈ es, e'.Agrees e) :
    v.Merged u (es ++ [e]) where
  tree hv := hc.tree (h.tree hv)
  persists := h.persists.trans hc.persists
  made := by
    intro made hm p entry he
    rcases List.mem_append.1 hm with hm | hm
    · cases hp : e p with
      | none => rw [hc.get?_of_none hp, h.made made hm p entry he]
      | some entry' => rw [hc.get?_of_some hp, ha made hm p entry entry' he hp]
    · rw [List.mem_singleton.1 hm] at he
      exact hc.get?_of_some he
  other := by
    intro p hp
    rw [hc.get?_of_none (hp e (by simp))]
    exact h.other p fun e' hm => hp e' (List.mem_append_left _ hm)

/-- What stands at a place has been put there, or nothing has and it was there before. -/
theorem Merged.cases (h : v.Merged w es) (p : Place) :
    (∃ e ∈ es, ∃ entry, e p = some entry ∧ w.get? p = some entry) ∨
      (∀ e ∈ es, e p = none) ∧ w.get? p = v.get? p := by
  by_cases hp : ∃ e ∈ es, ∃ entry, e p = some entry
  · obtain ⟨e, he, entry, hentry⟩ := hp
    exact Or.inl ⟨e, he, entry, hentry, h.made e he p entry hentry⟩
  · have hnone : ∀ e ∈ es, e p = none := fun e he => by
      cases hentry : e p with
      | none => rfl
      | some entry => exact absurd ⟨e, he, entry, hentry⟩ hp
    exact Or.inr ⟨hnone, h.other p hnone⟩

/-- The order of the effects does not matter, nor how often each is there. -/
theorem Merged.unique (h : v.Merged w es) (h' : v.Merged u es') (hm : ∀ e, e ∈ es ↔ e ∈ es')
    (p : Place) : w.get? p = u.get? p := by
  rcases h.cases p with ⟨e, he, entry, hentry, hw⟩ | ⟨hnone, hw⟩
  · rw [hw, h'.made e ((hm e).1 he) p entry hentry]
  · rw [hw, h'.other p fun e he => hnone e ((hm e).2 he)]

end Volume

end Inlay
