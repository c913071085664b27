import Inlay.Json.Value
import Mathlib.Data.List.Nodup

/-!
# Laws of tables

What is found under a key after one table has been laid over another, and when that changes nothing.
A table whose keys are all different is known by its keys and by what is found under them
(`eq_of_get?`).
-/

namespace Inlay.Table

theorem mem_keys_iff {table : Table} {key : String} :
    key ∈ table.keys ↔ ∃ value, table.get? key = some value := by
  induction table with
  | nil => simp [keys, get?]
  | cons e rest ih =>
    obtain ⟨k, v⟩ := e
    simp only [keys, get?, List.map_cons, List.mem_cons, List.lookup_cons] at ih ⊢
    by_cases hk : key = k
    · simp [hk]
    · have hb : (key == k) = false := by simpa using hk
      simp only [hk, false_or, hb, ih]

theorem get?_of_not_mem {table : Table} {key : String} (h : key ∉ table.keys) :
    table.get? key = none := by
  cases hg : table.get? key with
  | none => rfl
  | some value => exact absurd (mem_keys_iff.2 ⟨value, hg⟩) h

theorem get?_of_mem {table : Table} (h : table.keys.Nodup) {key : String} {value : Value}
    (hm : (key, value) ∈ table) : table.get? key = some value := by
  induction table with
  | nil => simp at hm
  | cons e rest ih =>
    obtain ⟨k, v⟩ := e
    obtain ⟨hk, hrest⟩ := List.nodup_cons.1 h
    simp only [get?, List.lookup_cons]
    rcases List.mem_cons.1 hm with heq | htail
    · obtain ⟨rfl, rfl⟩ := Prod.mk.inj heq
      simp
    · have hne : key ≠ k := by
        rintro rfl
        exact hk (List.mem_map.2 ⟨_, htail, rfl⟩)
      have hb : (key == k) = false := by simpa using hne
      rw [hb]
      exact ih hrest htail

/-- Tables with the same keys in the same order, none of them twice, and the same values. -/
theorem eq_of_get? {table other : Table} (hn : table.keys.Nodup) (hk : other.keys = table.keys)
    (h : ∀ key ∈ table.keys, other.get? key = table.get? key) : other = table := by
  induction table generalizing other with
  | nil => exact List.map_eq_nil_iff.1 hk
  | cons e rest ih =>
    obtain ⟨k, v⟩ := e
    cases other with
    | nil => simp [keys] at hk
    | cons e' rest' =>
      obtain ⟨k', v'⟩ := e'
      simp only [keys, List.map_cons, List.cons.injEq] at hk
      obtain ⟨rfl, hrest⟩ := hk
      obtain ⟨hnot, hn⟩ := List.nodup_cons.1 hn
      have hhead := h k' (List.mem_cons_self ..)
      simp only [get?, List.lookup_cons, beq_self_eq_true, Option.some.injEq] at hhead
      have htail : rest' = rest := by
        apply ih hn hrest
        intro key hm
        have hne : key ≠ k' := by
          rintro rfl
          exact hnot hm
        have hb : (key == k') = false := by simpa using hne
        have hkey := h key (List.mem_cons_of_mem _ hm)
        simpa only [get?, List.lookup_cons, hb] using hkey
      rw [hhead, htail]

theorem get?_map (f : String → Value → Value) (table : Table) (key : String) :
    Table.get? (table.map fun (key, value) => (key, f key value)) key =
      (table.get? key).map (f key) := by
  induction table with
  | nil => rfl
  | cons e rest ih =>
    obtain ⟨k, v⟩ := e
    simp only [get?, List.map_cons, List.lookup_cons] at ih ⊢
    by_cases hk : key = k
    · simp [hk]
    · have hb : (key == k) = false := by simpa using hk
      simp only [hb, ih]

/-! ### Setting a key -/

theorem keys_set_of_mem {table : Table} {key : String} (h : key ∈ table.keys) (value : Value) :
    (table.set key value).keys = table.keys := by
  rw [keys_set, if_pos h]

theorem set_of_get? {table : Table} {key : String} {value : Value}
    (h : table.get? key = some value) : table.set key value = table := by
  induction table with
  | nil => simp [get?] at h
  | cons e rest ih =>
    obtain ⟨k, v⟩ := e
    by_cases hk : k = key
    · subst hk
      simp only [get?, List.lookup_cons, beq_self_eq_true, Option.some.injEq] at h
      simp [set, h]
    · have hb : (key == k) = false := by simpa using Ne.symm hk
      simp only [get?, List.lookup_cons, hb] at h
      simp only [set, if_neg hk, ih h]

theorem set_of_not_mem {table : Table} {key : String} (h : key ∉ table.keys) (value : Value) :
    table.set key value = table ++ [(key, value)] := by
  induction table with
  | nil => rfl
  | cons e rest ih =>
    obtain ⟨k, v⟩ := e
    simp only [keys, List.map_cons, List.mem_cons, not_or] at h
    simp only [set, if_neg (Ne.symm h.1), List.cons_append, ih h.2]

theorem mem_set {table : Table} {key : String} {value : Value} {e : String × Value}
    (h : e ∈ table.set key value) : e = (key, value) ∨ e ∈ table := by
  induction table with
  | nil => exact Or.inl (List.mem_singleton.1 h)
  | cons first rest ih =>
    obtain ⟨k, v⟩ := first
    simp only [set] at h
    split at h
    · exact (List.mem_cons.1 h).imp_right (List.mem_cons_of_mem _)
    · rcases List.mem_cons.1 h with rfl | hrest
      · exact Or.inr (List.mem_cons_self ..)
      · exact (ih hrest).imp_right (List.mem_cons_of_mem _)

/-! ### Laying one table over another -/

theorem update_nil (table : Table) : table.update [] = table := rfl

theorem update_cons (table : Table) (key : String) (value : Value) (others : Table) :
    table.update ((key, value) :: others) = (table.set key value).update others := rfl

theorem mem_keys_set {table : Table} {key other : String} {value : Value}
    (h : other ∈ table.keys) : other ∈ (table.set key value).keys := by
  rw [keys_set]
  split
  · exact h
  · exact List.mem_append_left _ h

theorem mem_keys_update {table others : Table} {key : String} (h : key ∈ table.keys) :
    key ∈ (table.update others).keys := by
  induction others generalizing table with
  | nil => exact h
  | cons e rest ih => exact ih (mem_keys_set h)

theorem keys_update {table others : Table} (h : ∀ key ∈ others.keys, key ∈ table.keys) :
    (table.update others).keys = table.keys := by
  induction others generalizing table with
  | nil => rfl
  | cons e rest ih =>
    obtain ⟨k, v⟩ := e
    have hset : (table.set k v).keys = table.keys :=
      keys_set_of_mem (h k (List.mem_cons_self ..)) v
    rw [update_cons, ih, hset]
    intro key hm
    rw [hset]
    exact h key (List.mem_cons_of_mem _ hm)

theorem get?_update_of_not_mem {table others : Table} {key : String} (h : key ∉ others.keys) :
    (table.update others).get? key = table.get? key := by
  induction others generalizing table with
  | nil => rfl
  | cons e rest ih =>
    obtain ⟨k, v⟩ := e
    simp only [keys, List.map_cons, List.mem_cons, not_or] at h
    rw [update_cons, ih h.2, get?_set_of_ne h.1]

theorem get?_update {table others : Table} (hn : others.keys.Nodup) {key : String}
    (h : key ∈ others.keys) : (table.update others).get? key = others.get? key := by
  induction others generalizing table with
  | nil => simp [keys] at h
  | cons e rest ih =>
    obtain ⟨k, v⟩ := e
    obtain ⟨hnot, hn⟩ := List.nodup_cons.1 hn
    rw [update_cons]
    by_cases hk : key = k
    · subst hk
      rw [get?_update_of_not_mem hnot, get?_set_self]
      simp [get?]
    · have hb : (key == k) = false := by simpa using hk
      have hrest : key ∈ keys rest := (List.mem_cons.1 h).resolve_left hk
      rw [ih hn hrest]
      simp only [get?, List.lookup_cons, hb]

/-- What is found under a key comes from one of the two tables. -/
theorem get?_update_cases {table others : Table} {key : String} {value : Value}
    (h : (table.update others).get? key = some value) :
    table.get? key = some value ∨ (key, value) ∈ others := by
  induction others generalizing table with
  | nil => exact Or.inl h
  | cons e rest ih =>
    obtain ⟨k, v⟩ := e
    rw [update_cons] at h
    rcases ih h with hset | hm
    · by_cases hk : key = k
      · subst hk
        rw [get?_set_self, Option.some.injEq] at hset
        exact Or.inr (by rw [hset]; exact List.mem_cons_self ..)
      · rw [get?_set_of_ne hk] at hset
        exact Or.inl hset
    · exact Or.inr (List.mem_cons_of_mem _ hm)

theorem nodup_keys_set {table : Table} (h : table.keys.Nodup) (key : String) (value : Value) :
    (table.set key value).keys.Nodup := by
  rw [keys_set]
  split
  · exact h
  · next hnot => exact List.nodup_append.2 ⟨h, List.nodup_singleton key, by
      rintro a ha b hb rfl
      exact hnot (List.mem_singleton.1 hb ▸ ha)⟩

theorem nodup_keys_update {table : Table} (h : table.keys.Nodup) (others : Table) :
    (table.update others).keys.Nodup := by
  induction others generalizing table with
  | nil => exact h
  | cons e rest ih => exact ih (nodup_keys_set h e.1 e.2)

/-- The keys of the first table come first. -/
theorem keys_prefix_update (table others : Table) :
    table.keys <+: (table.update others).keys := by
  induction others generalizing table with
  | nil => exact List.prefix_rfl
  | cons e rest ih =>
    have hset : table.keys <+: (table.set e.1 e.2).keys := by
      rw [keys_set]
      split
      · exact List.prefix_rfl
      · exact List.prefix_append _ _
    exact hset.trans (ih _)

theorem update_append (table first rest : Table) :
    table.update (first ++ rest) = (table.update first).update rest :=
  List.foldl_append

theorem update_of_keys_eq {table other : Table} (hn : table.keys.Nodup)
    (hk : other.keys = table.keys) : table.update other = other := by
  have hkeys : (table.update other).keys = other.keys := by
    rw [keys_update fun key h => hk ▸ h, hk]
  rw [← hk] at hn
  exact eq_of_get? hn hkeys fun key h => get?_update hn h

theorem update_of_disjoint {table others : Table} (hn : others.keys.Nodup)
    (h : ∀ key ∈ others.keys, key ∉ table.keys) : table.update others = table ++ others := by
  induction others generalizing table with
  | nil => simp [update_nil]
  | cons e rest ih =>
    obtain ⟨k, v⟩ := e
    obtain ⟨hnot, hn⟩ := List.nodup_cons.1 hn
    obtain ⟨hk, hrest⟩ := List.forall_mem_cons.1 h
    have hfresh : ∀ key ∈ keys rest, key ∉ keys (table ++ [(k, v)]) := by
      intro key hkey hmem
      rw [keys, List.map_append, List.mem_append, List.map_singleton, List.mem_singleton] at hmem
      rcases hmem with hmem | rfl
      · exact hrest key hkey hmem
      · exact hnot hkey
    rw [update_cons, set_of_not_mem hk, ih hn hfresh, List.append_assoc, List.singleton_append]

/-- A table that starts with all the keys of another one replaces it. -/
theorem update_of_keys_prefix {table other : Table} (hn : other.keys.Nodup)
    (hk : table.keys <+: other.keys) : table.update other = other := by
  have hfirst : keys (other.take table.keys.length) = table.keys := by
    rw [keys, List.map_take]
    exact (List.prefix_iff_eq_take.1 hk).symm
  have hsplit (n : Nat) : keys (other.take n) ++ keys (other.drop n) = other.keys := by
    simp only [keys, ← List.map_append, List.take_append_drop]
  rw [← hsplit table.keys.length] at hn
  obtain ⟨htake, hdrop, hapart⟩ := List.nodup_append.1 hn
  rw [hfirst] at htake
  conv_lhs => rw [← List.take_append_drop table.keys.length other]
  rw [update_append, update_of_keys_eq htake hfirst, update_of_disjoint hdrop
    fun key hdrop htake => hapart key htake key hdrop rfl, List.take_append_drop]

end Inlay.Table
