/-!
# Sets of characters given by ranges

A property of characters is a sorted list of inclusive ranges of code points. Membership of
`c` means that some range contains its code point (`mem_ranges_iff`).
-/

namespace Inlay

abbrev Ranges := List (Nat × Nat)

def Ranges.contains (ranges : Ranges) (c : Char) : Bool :=
  ranges.any fun range => decide (range.1 ≤ c.toNat) && decide (c.toNat ≤ range.2)

theorem mem_ranges_iff (ranges : Ranges) (c : Char) :
    ranges.contains c = true ↔ ∃ range ∈ ranges, range.1 ≤ c.toNat ∧ c.toNat ≤ range.2 := by
  simp only [Ranges.contains, List.any_eq_true, Bool.and_eq_true, decide_eq_true_eq]

end Inlay
