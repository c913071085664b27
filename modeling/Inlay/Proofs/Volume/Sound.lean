import Inlay.Proofs.Path.Usable
import Inlay.Volume.Files
import Mathlib.Data.List.Nodup

/-!
# Sound volumes

What a file system keeps to: every entry stands once, under a proper name, in a folder, and the text
of a link is one that is taken as a path. Links and limits are allowed. A place is then a way
through folders, and a way is no longer than the list of entries.
-/

namespace Inlay

namespace Entry

/-- The text of a symbolic link. -/
def target? : Entry → Option Path
  | .link target => some target
  | _ => none

def isLink : Entry → Bool
  | .link _ => true
  | _ => false

theorem target?_of_not_link {entry : Entry} (h : entry.isLink = false) : entry.target? = none := by
  cases entry with
  | link target => simp [isLink] at h
  | file content => rfl
  | folder => rfl

variable [Alphabet]

theorem usable_of_not_link {entry : Entry} (h : entry.isLink = false) :
    ∀ target ∈ entry.target?, Path.IsUsable target := by
  simp [target?_of_not_link h]

end Entry

namespace Volume

/-! ### Entries and places -/

theorem get?_nil (v : Volume) : v.get? [] = some .folder := rfl

theorem get?_of_ne_nil (v : Volume) {place : Place} (h : place ≠ []) :
    v.get? place = v.entries.lookup place := by
  simp [get?, h]

theorem mem_entries_of_get? {v : Volume} {place : Place} {entry : Entry} (hne : place ≠ [])
    (h : v.get? place = some entry) : (place, entry) ∈ v.entries := by
  rw [get?_of_ne_nil v hne, List.lookup_eq_some_iff] at h
  obtain ⟨before, after, he, _⟩ := h
  rw [he]
  exact List.mem_append_right _ (List.mem_cons_self ..)

/-- What holds of every name in the entries holds of every name on a way. -/
theorem forall_names_of_entries {v : Volume} {P : Text → Prop}
    (h : ∀ e ∈ v.entries, ∀ n ∈ e.1, P n) {place way : Place} {entry : Entry}
    (he : v.get? (place ++ way) = some entry) : ∀ n ∈ way, P n := fun n hn => by
  have hne : place ++ way ≠ [] := fun h => by simp [(List.append_eq_nil_iff.1 h).2] at hn
  exact h _ (mem_entries_of_get? hne he) n (List.mem_append_right _ hn)

theorem get?_of_mem_entries {v : Volume} (h : (v.entries.map (·.1)).Nodup) {place : Place}
    {entry : Entry} (hne : place ≠ []) (hm : (place, entry) ∈ v.entries) :
    v.get? place = some entry := by
  rw [get?_of_ne_nil v hne, List.lookup_eq_some_iff]
  obtain ⟨before, after, he⟩ := List.append_of_mem hm
  refine ⟨before, after, he, fun p hp => ?_⟩
  rw [he, List.map_append, List.map_cons] at h
  have hd := (List.nodup_append.1 h).2.2 p.1 (List.mem_map_of_mem hp) place
    (List.mem_cons_self ..)
  simpa using Ne.symm hd

theorem mem_names {v : Volume} {folder : Place} {name : Text} :
    name ∈ v.names folder ↔ ∃ entry, (folder ++ [name], entry) ∈ v.entries := by
  simp only [names, List.mem_filterMap, Prod.exists]
  constructor
  · rintro ⟨place, entry, hm, hc⟩
    rcases List.eq_nil_or_concat place with rfl | ⟨lead, last, rfl⟩
    · simp [childName?] at hc
    · rw [List.concat_eq_append] at hm hc
      simp only [childName?, List.getLast?_concat, List.dropLast_concat] at hc
      split at hc
      · next he =>
        simp only [Option.some.injEq] at hc
        exact ⟨entry, by rw [← he, ← hc]; exact hm⟩
      · simp at hc
  · rintro ⟨entry, hm⟩
    exact ⟨folder ++ [name], entry, hm, by simp [childName?]⟩

/-! ### Entries that are put -/

theorem map_putEntry (place : Place) (entry : Entry) (entries : List (Place × Entry)) :
    (putEntry place entry entries).map (·.1) =
      if place ∈ entries.map (·.1) then entries.map (·.1) else entries.map (·.1) ++ [place] := by
  induction entries with
  | nil => simp [putEntry]
  | cons e rest ih =>
    obtain ⟨p, x⟩ := e
    simp only [putEntry]
    by_cases hp : p = place
    · simp [hp]
    · simp only [if_neg hp, List.map_cons, List.mem_cons, Ne.symm hp, false_or, ih]
      split <;> rfl

theorem mem_putEntry {place : Place} {entry : Entry} {entries : List (Place × Entry)}
    {x : Place × Entry} (h : x ∈ putEntry place entry entries) :
    x = (place, entry) ∨ x ∈ entries := by
  induction entries with
  | nil => exact Or.inl (by simpa [putEntry] using h)
  | cons e rest ih =>
    obtain ⟨p, y⟩ := e
    simp only [putEntry] at h
    split at h
    · next hp =>
      rcases List.mem_cons.1 h with rfl | h
      · exact Or.inl (by rw [hp])
      · exact Or.inr (List.mem_cons_of_mem _ h)
    · rcases List.mem_cons.1 h with rfl | h
      · exact Or.inr (List.mem_cons_self ..)
      · exact (ih h).imp_right (List.mem_cons_of_mem _)

theorem put_put (v : Volume) (place : Place) (entry entry' : Entry) :
    (v.put place entry).put place entry' = v.put place entry' := by
  have he : putEntry place entry' (putEntry place entry v.entries) =
      putEntry place entry' v.entries := by
    induction v.entries with
    | nil => simp [putEntry]
    | cons e rest ih =>
      obtain ⟨p, x⟩ := e
      by_cases hp : p = place
      · simp [putEntry, hp]
      · simp only [putEntry, if_neg hp, ih]
  simp only [put, he]

/-! ### Soundness -/

variable [Alphabet]

def Named (v : Volume) : Prop :=
  ∀ e ∈ v.entries, ∀ name ∈ e.1.getLast?, Path.IsName name ∧ Path.IsUsable name

structure Sound (v : Volume) : Prop where
  nodup : (v.entries.map (·.1)).Nodup
  named : v.Named
  grounded : ∀ e ∈ v.entries, v.get? e.1.dropLast = some .folder
  linked : ∀ e ∈ v.entries, ∀ target ∈ e.2.target?, Path.IsUsable target

instance (v : Volume) : Decidable v.Named :=
  inferInstanceAs (Decidable
    (∀ e ∈ v.entries, ∀ name ∈ e.1.getLast?, Path.IsName name ∧ Path.IsUsable name))

instance (v : Volume) : Decidable v.Sound :=
  decidable_of_iff
    ((v.entries.map (·.1)).Nodup ∧ v.Named ∧
      (∀ e ∈ v.entries, v.get? e.1.dropLast = some .folder) ∧
      ∀ e ∈ v.entries, ∀ target ∈ e.2.target?, Path.IsUsable target)
    ⟨fun ⟨a, b, c, d⟩ => ⟨a, b, c, d⟩, fun ⟨a, b, c, d⟩ => ⟨a, b, c, d⟩⟩

/-! ### Names -/

theorem named_of_mem_names {v : Volume} (h : v.Named) {folder : Place} {name : Text}
    (hm : name ∈ v.names folder) : Path.IsName name ∧ Path.IsUsable name := by
  obtain ⟨entry, he⟩ := mem_names.1 hm
  exact h _ he name (by simp)

theorem named_of_mem_list {v : Volume} (h : v.Named) {path : Path} {names : List Text}
    (hl : v.list path = .ok names) : ∀ n ∈ names, Path.IsName n ∧ Path.IsUsable n := by
  intro n hn
  unfold list at hl
  split at hl
  · simp at hl
  · simp at hl
  · split at hl
    · obtain rfl := Except.ok.inj hl
      exact named_of_mem_names h hn
    · simp at hl

variable {v : Volume}

theorem Sound.mem_names_iff (h : v.Sound) {folder : Place} {name : Text} :
    name ∈ v.names folder ↔ ∃ entry, v.get? (folder ++ [name]) = some entry := by
  rw [mem_names]
  constructor
  · rintro ⟨entry, hm⟩
    exact ⟨entry, get?_of_mem_entries h.nodup (by simp) hm⟩
  · rintro ⟨entry, he⟩
    exact ⟨entry, mem_entries_of_get? (by simp) he⟩

theorem Sound.nodup_names (h : v.Sound) (folder : Place) : (v.names folder).Nodup := by
  have hp : (v.entries.map (·.1)).Pairwise (· ≠ ·) := h.nodup
  rw [List.pairwise_map] at hp
  refine hp.filterMap _ fun a b hab x hx y hy hxy => hab ?_
  have place_of {p : Place} {z : Text} (hz : childName? folder p = some z) : p = folder ++ [z] := by
    rcases List.eq_nil_or_concat p with rfl | ⟨lead, last, rfl⟩
    · simp [childName?] at hz
    · rw [List.concat_eq_append] at hz ⊢
      simp only [childName?, List.getLast?_concat, List.dropLast_concat] at hz
      split at hz
      · next he =>
        simp only [Option.some.injEq] at hz
        rw [he, hz]
      · simp at hz
  rw [place_of hx, place_of hy, hxy]

theorem Sound.nodup_list (h : v.Sound) {path : Path} {names : List Text}
    (hl : v.list path = .ok names) : names.Nodup := by
  unfold list at hl
  split at hl
  · simp at hl
  · simp at hl
  · split at hl
    · obtain rfl := Except.ok.inj hl
      exact h.nodup_names _
    · simp at hl

theorem Sound.child (h : v.Sound) {place : Place} {name : Text} {entry : Entry}
    (he : v.get? (place ++ [name]) = some entry) :
    v.get? place = some .folder ∧ Path.IsName name := by
  have hm := mem_entries_of_get? (by simp) he
  have hg := h.grounded _ hm
  rw [List.dropLast_concat] at hg
  exact ⟨hg, (h.named _ hm name (by simp)).1⟩

theorem Sound.isUsable_last (h : v.Sound) {place : Place} {name : Text} {entry : Entry}
    (he : v.get? (place ++ [name]) = some entry) : Path.IsUsable name :=
  (h.named _ (mem_entries_of_get? (by simp) he) name (by simp)).2

theorem Sound.isUsable_target (h : v.Sound) {place : Place} {target : Path}
    (he : v.get? place = some (.link target)) : Path.IsUsable target := by
  have hne : place ≠ [] := by
    rintro rfl
    simp [get?_nil] at he
  exact h.linked _ (mem_entries_of_get? hne he) target rfl

theorem Sound.folder_of_below (h : v.Sound) {place : Place} {names : List Text} {entry : Entry}
    (he : v.get? (place ++ names) = some entry) (hne : names ≠ []) :
    v.get? place = some .folder := by
  induction names generalizing place with
  | nil => exact absurd rfl hne
  | cons n names ih =>
    have hn : v.get? (place ++ [n]) ≠ none := by
      by_cases hz : names = []
      · rw [hz] at he
        simp [he]
      · have hf : v.get? (place ++ [n]) = some .folder := ih (by simpa using he) hz
        simp [hf]
    obtain ⟨e, hs⟩ := Option.ne_none_iff_exists'.1 hn
    exact (h.child hs).1

/-- A name on the way to an entry is itself the name of an entry. -/
theorem Sound.exists_entry_below (h : v.Sound) {place : Place} {names : List Text} {entry : Entry}
    (he : v.get? (place ++ names) = some entry) {name : Text} (hn : name ∈ names) :
    ∃ folder entry', v.get? (folder ++ [name]) = some entry' := by
  obtain ⟨lead, rest, rfl⟩ := List.append_of_mem hn
  have hc : v.get? (place ++ lead ++ [name] ++ rest) = some entry := by simpa using he
  by_cases hz : rest = []
  · rw [hz, List.append_nil] at hc
    exact ⟨_, _, hc⟩
  · exact ⟨_, _, h.folder_of_below hc hz⟩

theorem Sound.isName_below (h : v.Sound) {place : Place} {names : List Text} {entry : Entry}
    (he : v.get? (place ++ names) = some entry) : ∀ n ∈ names, Path.IsName n := fun n hn => by
  obtain ⟨folder, entry', he'⟩ := h.exists_entry_below he hn
  exact (h.child he').2

theorem Sound.isUsable_below (h : v.Sound) {place : Place} {names : List Text} {entry : Entry}
    (he : v.get? (place ++ names) = some entry) : ∀ n ∈ names, Path.IsUsable n := fun n hn => by
  obtain ⟨folder, entry', he'⟩ := h.exists_entry_below he hn
  exact h.isUsable_last he'

/-- Every part of a place is an entry of its own. -/
theorem Sound.length_le (h : v.Sound) {place : Place} {entry : Entry}
    (he : v.get? place = some entry) : place.length ≤ v.entries.length := by
  have hparts : ((List.range place.length).map fun i => place.take (i + 1)) ⊆
      v.entries.map (·.1) := by
    intro part hp
    obtain ⟨i, hi, rfl⟩ := List.mem_map.1 hp
    have hi' := List.mem_range.1 hi
    have hne : place.take (i + 1) ≠ [] := by
      intro hz
      have hlen := congrArg List.length hz
      rw [List.length_take, List.length_nil] at hlen
      omega
    have hsplit : v.get? (place.take (i + 1) ++ place.drop (i + 1)) = some entry := by
      rw [List.take_append_drop, he]
    obtain ⟨e, hs⟩ : ∃ e, v.get? (place.take (i + 1)) = some e := by
      by_cases hz : place.drop (i + 1) = []
      · rw [hz, List.append_nil] at hsplit
        exact ⟨entry, hsplit⟩
      · exact ⟨.folder, h.folder_of_below hsplit hz⟩
    exact List.mem_map_of_mem (mem_entries_of_get? hne hs)
  have hnodup : ((List.range place.length).map fun i => place.take (i + 1)).Nodup := by
    refine List.Nodup.map_on ?_ List.nodup_range
    intro i hi j hj hij
    have hlen := congrArg List.length hij
    rw [List.length_take, List.length_take] at hlen
    have hi' := List.mem_range.1 hi
    have hj' := List.mem_range.1 hj
    omega
  have hle := hnodup.length_le_of_subset hparts
  rwa [List.length_map, List.length_range, List.length_map] at hle

/-! ### Putting -/

theorem Sound.put (h : v.Sound) {place : Place} {name : Text} {entry : Entry}
    (hp : v.get? place = some .folder) (hn : Path.IsName name) (hu : Path.IsUsable name)
    (hl : ∀ target ∈ entry.target?, Path.IsUsable target)
    (hf : v.get? (place ++ [name]) ≠ some .folder) : (v.put (place ++ [name]) entry).Sound where
  nodup := by
    simp only [Volume.put, map_putEntry]
    split
    · exact h.nodup
    · next hm =>
      rw [List.nodup_append]
      refine ⟨h.nodup, by simp, fun a ha b hb => ?_⟩
      rw [List.mem_singleton.1 hb]
      exact fun e => hm (e ▸ ha)
  named := by
    intro e he m hm
    rcases mem_putEntry he with rfl | he
    · have hmn : name = m := by simpa using hm
      exact hmn ▸ ⟨hn, hu⟩
    · exact h.named e he m hm
  grounded := by
    intro e he
    rw [get?_put (by simp)]
    rcases mem_putEntry he with rfl | he
    · rw [List.dropLast_concat, if_neg (by simp), hp]
    · have hg := h.grounded e he
      have hd : e.1.dropLast ≠ place ++ [name] := fun hd => hf (hd ▸ hg)
      rw [if_neg hd, hg]
  linked := by
    intro e he
    rcases mem_putEntry he with rfl | he
    · exact hl
    · exact h.linked e he

theorem Sound.erase (h : v.Sound) {place : Place} (hne : place ≠ [])
    (hf : v.get? place ≠ some .folder) : (v.erase place).Sound where
  nodup := h.nodup.sublist (List.filter_sublist.map _)
  named := fun e he => h.named e (List.mem_filter.1 he).1
  grounded := by
    intro e he
    have hg := h.grounded e (List.mem_filter.1 he).1
    have hd : e.1.dropLast ≠ place := fun hd => hf (hd ▸ hg)
    rw [get?_erase hne, if_neg hd, hg]
  linked := fun e he => h.linked e (List.mem_filter.1 he).1

end Volume

end Inlay
