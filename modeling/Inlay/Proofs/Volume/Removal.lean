import Inlay.Proofs.Volume.Links
import Inlay.Proofs.Volume.Making

/-!
# What removing takes away

A removed entry has the last name of the path that it was removed by, links on the way or not
(`exists_of_remove_descend`), and no other operation leaves a place empty where an entry was
(`Retains`). In a tree, files that are removed one after the other are gone and nothing else is
(`Cleared`).
-/

namespace Inlay.Volume

variable {v w : Volume}

/-! ### The entry that is removed -/

theorem getLast?_of_cons {name last : Text} {rest : List Text} (hne : name ≠ last)
    (h : (name :: rest).getLast? = some last) : rest.getLast? = some last := by
  cases rest with
  | nil => exact absurd (by simpa using h) hne
  | cons m rest => simpa using h

theorem exists_of_follow_entry {links : Nat} {place found : Place} {steps : List Text}
    {last : Text} (hn : Path.IsName last) (hs : steps.getLast? = some last)
    (h : v.follow false links place steps = .ok (.found found)) :
    ∃ folder, found = folder ++ [last] := by
  -- Along the recursion; a link puts steps in front, and the last one stays.
  fun_induction Volume.follow v false links place steps
  case case1 => simp at hs
  case case2 ih => exact ih (getLast?_of_cons hn.2.2.1.symm hs) h
  case case3 ih => exact ih (getLast?_of_cons hn.2.2.2.symm hs) h
  case case4 => simp at h
  case case5 => simp at h
  case case6 => simp at h
  case case7 here name rest _ _ _ _ _ _ hrest =>
    have hnil : rest = [] := by simpa using hrest
    subst hnil
    obtain rfl : name = last := by simpa using hs
    simp only [Except.ok.injEq, Landing.found.injEq] at h
    exact ⟨here, h.symm⟩
  case case8 => simp at h
  case case9 here name rest _ _ _ _ target _ hrest links _ ih =>
    have hne : rest ≠ [] := by simpa using hrest
    refine ih ?_ h
    cases rest with
    | nil => exact absurd rfl hne
    | cons m rest =>
      rw [List.getLast?_append]
      simpa using hs
  case case10 here name rest _ _ _ _ entry _ _ ih =>
    cases rest with
    | nil =>
      obtain rfl : name = last := by simpa using hs
      rw [follow_nil] at h
      simp only [Except.ok.injEq, Landing.found.injEq] at h
      exact ⟨here, h.symm⟩
    | cons m rest => exact ih (by simpa using hs) h
  case case11 => simp at h

theorem exists_of_remove_descend {root : Path} {names : List Text} {name : Text}
    (hnames : ∀ n ∈ names, Path.IsName n) (hn : Path.IsName name)
    (h : v.remove (Path.descend root (names ++ [name])) = .ok w) :
    ∃ folder, w = v.erase (folder ++ [name]) := by
  have hall := Path.isPiece_concat hnames hn.isPiece
  have hlast : (Path.components (Path.descend root (names ++ [name]))).getLast? = some name := by
    rw [Path.components_descend root hall, ← List.append_assoc, List.getLast?_concat]
  unfold remove at h
  cases hlocate : v.locate false (Path.descend root (names ++ [name]))
      (Path.components (Path.descend root (names ++ [name]))) with
  | error e => simp [hlocate] at h
  | ok landing =>
    cases landing with
    | vacant folder name => simp [hlocate] at h
    | found place =>
      obtain ⟨folder, rfl⟩ := exists_of_follow_entry hn hlast (follow_of_locate hlocate)
      simp only [hlocate] at h
      split at h
      · simp at h
      · split at h
        · simp at h
        · exact ⟨folder, (Except.ok.inj h).symm⟩

/-! ### Operations that take nothing away -/

/-- No place has become empty. -/
def Retains (v w : Volume) : Prop :=
  ∀ p, v.get? p ≠ none → w.get? p ≠ none

theorem Retains.refl (v : Volume) : Retains v v := fun _ h => h

theorem Retains.trans {u : Volume} (h : Retains u v) (h' : Retains v w) : Retains u w :=
  fun p hp => h' p (h p hp)

theorem retains_put (v : Volume) (place : Place) (entry : Entry) :
    Retains v (v.put place entry) := by
  intro p hp
  by_cases hz : p = []
  · rw [hz]
    simp [get?_nil]
  · rw [get?_of_ne_nil _ hz] at hp ⊢
    rw [put, lookup_putEntry]
    split
    · simp
    · exact hp

theorem retains_write {path : Path} {content : Bytes} (h : v.write path content = .ok w) :
    Retains v w := by
  unfold write at h
  cases ht : v.target path with
  | error e => simp [ht, Except.map] at h
  | ok place =>
    simp only [ht, Except.map, Except.ok.injEq] at h
    rw [← h]
    exact retains_put _ _ _

theorem retains_makeFolder {path : Path} (h : v.makeFolder path = .ok w) : Retains v w := by
  unfold makeFolder at h
  split at h
  · simp at h
  · simp at h
  · rw [← Except.ok.inj h]
    exact retains_put _ _ _

/-! ### Files taken from a tree -/

variable [Alphabet]

/-- Some files have been removed, and nothing else has changed. -/
structure Cleared (v w : Volume) (places : List Place) : Prop where
  tree : w.Tree
  current : w.current = v.current
  files : ∀ p ∈ places, ∃ content, v.get? p = some (.file content)
  get? : ∀ p, w.get? p = if p ∈ places then none else v.get? p

theorem Tree.cleared (h : v.Tree) : v.Cleared v [] :=
  ⟨h, rfl, by simp, fun p => by simp⟩

variable {places : List Place}

theorem Cleared.erase (h : v.Cleared w places) {place : Place} {content : Bytes}
    (hp : v.get? place = some (.file content)) : v.Cleared (w.erase place) (places ++ [place]) := by
  have hne : place ≠ [] := fun hz => by simp [hz, get?_nil] at hp
  have hfile : w.get? place ≠ some .folder := by
    rw [h.get?, hp]
    split <;> simp
  refine ⟨h.tree.erase hne hfile, h.current, fun p hm => ?_, fun p => ?_⟩
  · rcases List.mem_append.1 hm with hm | hm
    · exact h.files p hm
    · exact ⟨content, by rw [List.mem_singleton.1 hm, hp]⟩
  · rw [get?_erase hne, h.get?]
    by_cases hpp : p = place
    · simp [hpp]
    · simp [hpp]

theorem Cleared.gone (h : v.Cleared w places) {p : Place} (hp : p ∈ places) : w.get? p = none := by
  rw [h.get?, if_pos hp]

theorem Cleared.get?_folder (h : v.Cleared w places) {p : Place}
    (hp : v.get? p = some .folder) : w.get? p = some .folder := by
  rw [h.get?, if_neg, hp]
  intro hm
  obtain ⟨content, hc⟩ := h.files p hm
  simp [hp] at hc

theorem Cleared.leads (h : v.Cleared w places) (hv : v.Tree) {path : Path} {place : Place}
    (hp : v.get? place = some .folder) (hl : v.Leads path place) : w.Leads path place :=
  hv.leads_of_folders h.tree h.current (fun _ => h.get?_folder)
    (fun _ => by simp [h.get?_folder hp]) hl

end Inlay.Volume
