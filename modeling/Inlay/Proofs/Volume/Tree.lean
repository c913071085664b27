import Inlay.Proofs.Volume.Sound

/-!
# Trees

A tree is a volume without links in which every entry stands once, under a proper name, in a folder,
and names have any length. What stands where is then said by `get?` alone, and putting an entry into
a folder or erasing a file gives a tree again.
-/

namespace Inlay.Volume

variable [Alphabet]

structure Tree (v : Volume) : Prop where
  unbounded : v.limits = Limits.unbounded
  nodup : (v.entries.map (·.1)).Nodup
  named : v.Named
  grounded : ∀ e ∈ v.entries, v.get? e.1.dropLast = some .folder
  linkFree : ∀ e ∈ v.entries, e.2.isLink = false

instance (v : Volume) : Decidable v.Tree :=
  decidable_of_iff
    (v.limits = Limits.unbounded ∧ (v.entries.map (·.1)).Nodup ∧ v.Named ∧
      (∀ e ∈ v.entries, v.get? e.1.dropLast = some .folder) ∧
      ∀ e ∈ v.entries, e.2.isLink = false)
    ⟨fun ⟨a, b, c, d, e⟩ => ⟨a, b, c, d, e⟩, fun ⟨a, b, c, d, e⟩ => ⟨a, b, c, d, e⟩⟩

variable {v : Volume}

theorem Tree.sound (h : v.Tree) : v.Sound where
  nodup := h.nodup
  named := h.named
  grounded := h.grounded
  linked := by
    intro e he target ht
    rw [Entry.target?_of_not_link (h.linkFree e he)] at ht
    simp at ht

/-! ### Entries and places -/

theorem Tree.mem_names_iff (h : v.Tree) {folder : Place} {name : Text} :
    name ∈ v.names folder ↔ ∃ entry, v.get? (folder ++ [name]) = some entry :=
  h.sound.mem_names_iff

theorem Tree.nodup_names (h : v.Tree) (folder : Place) : (v.names folder).Nodup :=
  h.sound.nodup_names folder

theorem Tree.child (h : v.Tree) {place : Place} {name : Text} {entry : Entry}
    (he : v.get? (place ++ [name]) = some entry) :
    v.get? place = some .folder ∧ Path.IsName name ∧ entry.isLink = false := by
  obtain ⟨hfolder, hname⟩ := h.sound.child he
  exact ⟨hfolder, hname, h.linkFree _ (mem_entries_of_get? (by simp) he)⟩

theorem Tree.not_link (h : v.Tree) {place : Place} {target : Path} :
    v.get? place ≠ some (.link target) := by
  intro he
  rcases List.eq_nil_or_concat place with rfl | ⟨lead, last, rfl⟩
  · simp [get?_nil] at he
  · rw [List.concat_eq_append] at he
    have hl := (h.child he).2.2
    simp [Entry.isLink] at hl

theorem Tree.folder_of_below (h : v.Tree) {place : Place} {names : List Text} {entry : Entry}
    (he : v.get? (place ++ names) = some entry) (hne : names ≠ []) :
    v.get? place = some .folder :=
  h.sound.folder_of_below he hne

theorem Tree.isName_below (h : v.Tree) {place : Place} {names : List Text} {entry : Entry}
    (he : v.get? (place ++ names) = some entry) : ∀ n ∈ names, Path.IsName n :=
  h.sound.isName_below he

/-! ### Putting and erasing -/

theorem Tree.put (h : v.Tree) {place : Place} {name : Text} {entry : Entry}
    (hp : v.get? place = some .folder) (hn : Path.IsName name) (hu : Path.IsUsable name)
    (hl : entry.isLink = false) (hf : v.get? (place ++ [name]) ≠ some .folder) :
    (v.put (place ++ [name]) entry).Tree where
  unbounded := h.unbounded
  nodup := (h.sound.put hp hn hu (Entry.usable_of_not_link hl) hf).nodup
  named := (h.sound.put hp hn hu (Entry.usable_of_not_link hl) hf).named
  grounded := (h.sound.put hp hn hu (Entry.usable_of_not_link hl) hf).grounded
  linkFree := by
    intro e he
    rcases mem_putEntry he with rfl | he
    · exact hl
    · exact h.linkFree e he

theorem Tree.erase (h : v.Tree) {place : Place} (hne : place ≠ [])
    (hf : v.get? place ≠ some .folder) : (v.erase place).Tree where
  unbounded := h.unbounded
  nodup := (h.sound.erase hne hf).nodup
  named := (h.sound.erase hne hf).named
  grounded := (h.sound.erase hne hf).grounded
  linkFree := fun e he => h.linkFree e (List.mem_filter.1 he).1

end Inlay.Volume
