import Inlay.Json.Reader
import Inlay.Proofs.Number.Decimals
import Inlay.Proofs.Settings.Tables

/-!
# What files are read as

An integer that is read has few enough digits, a table that is read has no key twice, and what
stands in lists and tables has been read as well (`built_of_read`): scalars come from the start of a
text, and lists and tables are put together from what comes after one another.
-/

namespace Inlay

/-- The values that files are read as. -/
inductive Value.Built : Value → Prop
  | null : Built .null
  | bool (b : Bool) : Built (.bool b)
  | int {n : Int} (h : n.natAbs < digitBound) : Built (.int n)
  | real (x : Binary64) : Built (.real x)
  | text (t : Text) : Built (.text t)
  | list {items : List Value} (h : ∀ v ∈ items, Built v) : Built (.list items)
  | table {entries : List (String × Value)} (hkeys : (Table.keys entries).Nodup)
      (h : ∀ e ∈ entries, Built e.2) : Built (.table entries)

namespace Value

theorem Built.nodup_keys {table : Table} (h : (Value.table table).Built) : table.keys.Nodup := by
  cases h with
  | table hkeys _ => exact hkeys

theorem Built.of_mem {table : Table} (h : (Value.table table).Built) {e : String × Value}
    (he : e ∈ table) : e.2.Built := by
  cases h with
  | table _ hentries => exact hentries e he

theorem Built.of_get? {table : Table} (h : (Value.table table).Built) {key : String} {v : Value}
    (hg : table.get? key = some v) : v.Built := by
  obtain ⟨before, after, rfl, _⟩ := List.lookup_eq_some_iff.1 hg
  exact h.of_mem (e := (key, v)) (by simp)

theorem built_nil : (Value.table []).Built := .table List.nodup_nil (by simp)

theorem Built.set {table : Table} (h : (Value.table table).Built) (key : String) {v : Value}
    (hv : v.Built) : (Value.table (table.set key v)).Built :=
  .table (Table.nodup_keys_set h.nodup_keys key v) fun _ he =>
    (Table.mem_set he).elim (fun heq => heq ▸ hv) h.of_mem

end Value

namespace Json

/-! ### Scalars -/

theorem isDigit_of_mem_whole {text : Text} {c : Char} (h : c ∈ (whole text).1) :
    c.isDigit = true := by
  unfold whole at h
  split at h
  · obtain rfl := List.mem_singleton.1 h
    rfl
  · exact Binary64.isDigit_of_mem_digitRun h

theorem built_of_number {text rest : Text} {v : Value} (h : number text = .ok (v, rest)) :
    v.Built := by
  unfold number at h
  -- With a sign or without one, the digits are what counts.
  split at h
  all_goals
    dsimp only at h
    split at h
    · simp at h
    split at h
    · split at h
      · simp at h
      · next hlen =>
        obtain ⟨rfl, _⟩ := Prod.mk.inj (Except.ok.inj h)
        have hlt := Binary64.digitsValue_lt (fun c hc => isDigit_of_mem_whole hc)
          (Nat.not_lt.1 hlen)
        refine .int ?_
        split
        · rwa [Int.natAbs_neg, Int.natAbs_natCast]
        · rwa [Int.natAbs_natCast]
    · split at h
      · obtain ⟨rfl, _⟩ := Prod.mk.inj (Except.ok.inj h)
        exact .real _
      · simp at h

theorem built_of_scalar {text rest : Text} {v : Value} (h : scalar text = .ok (v, rest)) :
    v.Built := by
  unfold scalar at h
  split at h
  · next name value hfind =>
    obtain ⟨rfl, _⟩ := Prod.mk.inj (Except.ok.inj h)
    have hm := List.mem_of_find?_eq_some hfind
    simp only [names, List.mem_cons, Prod.mk.injEq, List.not_mem_nil, or_false] at hm
    rcases hm with ⟨_, rfl⟩ | ⟨_, rfl⟩ | ⟨_, rfl⟩ | ⟨_, rfl⟩ | ⟨_, rfl⟩ | ⟨_, rfl⟩ <;> constructor
  · exact built_of_number h

/-! ### Values -/

theorem exists_of_bind {α β : Type} {step : Except Fault α} {next : α → Except Fault β} {y : β}
    (h : (step >>= next) = .ok y) : ∃ x, step = .ok x ∧ next x = .ok y := by
  cases step with
  | error f => simp [bind, Except.bind] at h
  | ok x => exact ⟨x, rfl, h⟩

theorem exists_of_map {α β : Type} {step : Except Fault α} {f : α → β} {y : β}
    (h : step.map f = .ok y) : ∃ x, step = .ok x ∧ f x = y := by
  cases step with
  | error f => simp [Except.map] at h
  | ok x => exact ⟨x, rfl, Except.ok.inj h⟩

variable [Alphabet]

/-- What holds of all that is read with some fuel. -/
structure BuiltBy (fuel : Nat) : Prop where
  value : ∀ depth text v rest, value fuel depth text = .ok (v, rest) → v.Built
  items : ∀ depth text vs rest, items fuel depth text = .ok (vs, rest) → ∀ v ∈ vs, v.Built
  entries : ∀ depth done text es rest, (Value.table done).Built →
    entries fuel depth done text = .ok (es, rest) → (Value.table es).Built

theorem builtBy_zero : BuiltBy 0 where
  value depth text v rest h := by
    rw [Json.value] at h
    simp at h
  items depth text vs rest h := by
    rw [Json.items] at h
    simp at h
  entries depth done text es rest _ h := by
    rw [Json.entries] at h
    · simp at h
    · simp

variable {fuel depth : Nat}

theorem BuiltBy.value_succ (ih : BuiltBy fuel) {text rest : Text} {v : Value}
    (h : Json.value (fuel + 1) depth text = .ok (v, rest)) : v.Built := by
  unfold Json.value at h
  split at h
  · simp at h
  · obtain ⟨_, _, hv⟩ := exists_of_map h
    obtain ⟨rfl, _⟩ := Prod.mk.inj hv
    exact .text _
  · next fuel' first heq =>
    obtain rfl : fuel = fuel' := Nat.succ.inj heq
    split at h
    · simp at h
    split at h
    · obtain ⟨rfl, _⟩ := Prod.mk.inj (Except.ok.inj h)
      exact .list (by simp)
    · obtain ⟨⟨vs, r⟩, hitems, hv⟩ := exists_of_map h
      obtain ⟨rfl, _⟩ := Prod.mk.inj hv
      exact .list (ih.items _ _ _ _ hitems)
  · next fuel' first heq =>
    obtain rfl : fuel = fuel' := Nat.succ.inj heq
    split at h
    · simp at h
    split at h
    · obtain ⟨rfl, _⟩ := Prod.mk.inj (Except.ok.inj h)
      exact Value.built_nil
    · obtain ⟨⟨es, r⟩, hentries, hv⟩ := exists_of_map h
      obtain ⟨rfl, _⟩ := Prod.mk.inj hv
      exact ih.entries _ [] _ _ _ Value.built_nil hentries
  · exact built_of_scalar h

theorem BuiltBy.items_succ (ih : BuiltBy fuel) {text rest : Text} {vs : List Value}
    (h : Json.items (fuel + 1) depth text = .ok (vs, rest)) : ∀ v ∈ vs, v.Built := by
  rw [Json.items] at h
  obtain ⟨⟨item, more⟩, hvalue, h⟩ := exists_of_bind h
  have hitem := ih.value _ _ _ _ hvalue
  simp only at h
  split at h
  · obtain ⟨rfl, _⟩ := Prod.mk.inj (Except.ok.inj h)
    exact List.forall_mem_singleton.2 hitem
  · obtain ⟨⟨vs', rest'⟩, hmore, h⟩ := exists_of_bind h
    obtain ⟨rfl, _⟩ := Prod.mk.inj (Except.ok.inj h)
    exact List.forall_mem_cons.2 ⟨hitem, ih.items _ _ _ _ hmore⟩
  · simp at h

theorem BuiltBy.entries_succ (ih : BuiltBy fuel) {done es : Table} {text rest : Text}
    (hd : (Value.table done).Built) (h : Json.entries (fuel + 1) depth done text = .ok (es, rest)) :
    (Value.table es).Built := by
  unfold Json.entries at h
  split at h
  · next fuel' first heq =>
    obtain rfl : fuel = fuel' := Nat.succ.inj heq
    obtain ⟨⟨key, more⟩, _, h⟩ := exists_of_bind h
    simp only at h
    split at h
    · obtain ⟨⟨item, more'⟩, hvalue, h⟩ := exists_of_bind h
      have hset := hd.set (str key) (ih.value _ _ _ _ hvalue)
      simp only at h
      split at h
      · obtain ⟨rfl, _⟩ := Prod.mk.inj (Except.ok.inj h)
        exact hset
      · exact ih.entries _ _ _ _ _ hset h
      · simp at h
    · simp at h
  · simp at h

theorem builtBy (fuel : Nat) : BuiltBy fuel := by
  induction fuel with
  | zero => exact builtBy_zero
  | succ fuel ih =>
    exact ⟨fun _ _ _ _ h => ih.value_succ h, fun _ _ _ _ h => ih.items_succ h,
      fun _ _ _ _ _ hd h => ih.entries_succ hd h⟩

theorem built_of_read {text : Text} {v : Value} (h : read depth text = .ok v) : v.Built := by
  unfold Json.read at h
  split at h
  · simp [bind, Except.bind] at h
  obtain ⟨⟨found, rest⟩, hvalue, h⟩ := exists_of_bind h
  simp only at h
  split at h
  · obtain rfl := Except.ok.inj h
    exact (builtBy _).value _ _ _ _ hvalue
  · simp at h

end Json

end Inlay
