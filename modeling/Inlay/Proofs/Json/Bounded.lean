import Inlay.Proofs.Json.Built

/-!
# The integers of a file

No integer in a value that is read has more digits than the reader takes (`bounded_of_read`).
-/

namespace Inlay

mutual

/-- Values in which every integer has few enough digits to be read. -/
def Value.Bounded : Value → Prop
  | .int n => n.natAbs < digitBound
  | .null | .bool _ | .real _ | .text _ | .bytes _ => True
  | .list items => Value.BoundedItems items
  | .table entries => Value.BoundedEntries entries

def Value.BoundedItems : List Value → Prop
  | [] => True
  | item :: more => item.Bounded ∧ Value.BoundedItems more

def Value.BoundedEntries : List (String × Value) → Prop
  | [] => True
  | (_, value) :: more => value.Bounded ∧ Value.BoundedEntries more

end

namespace Value

theorem boundedItems_iff {items : List Value} : BoundedItems items ↔ ∀ v ∈ items, v.Bounded := by
  induction items with
  | nil => simp [BoundedItems]
  | cons v rest ih => simp only [BoundedItems, ih, List.forall_mem_cons]

theorem boundedEntries_iff {entries : List (String × Value)} :
    BoundedEntries entries ↔ ∀ e ∈ entries, e.2.Bounded := by
  induction entries with
  | nil => simp [BoundedEntries]
  | cons e rest ih =>
    obtain ⟨key, value⟩ := e
    simp only [BoundedEntries, ih, List.forall_mem_cons]

theorem bounded_of_get? {table : Table} (h : BoundedEntries table) {key : String} {value : Value}
    (hg : table.get? key = some value) : value.Bounded := by
  obtain ⟨before, after, rfl, _⟩ := List.lookup_eq_some_iff.1 hg
  exact boundedEntries_iff.1 h (key, value) (by simp)

theorem Built.bounded {v : Value} (h : v.Built) : v.Bounded := by
  induction h with
  | int h => exact h
  | list _ ih => exact boundedItems_iff.2 ih
  | table _ _ ih => exact boundedEntries_iff.2 ih
  | null | bool | real | text => trivial

end Value

theorem Json.bounded_of_read [Alphabet] {depth : Nat} {text : Text} {v : Value}
    (h : Json.read depth text = .ok v) : v.Bounded :=
  (Json.built_of_read h).bounded

end Inlay
