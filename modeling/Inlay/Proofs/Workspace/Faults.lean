import Inlay.Proofs.Workspace.Run

/-!
# Lasting faults

Faults that never wear off fail the same operations for ever: an operation that asks for its fault
only counts the hit (`Lasts.planned`), and every later operation sees the plan of the beginning.
-/

namespace Inlay

/-- The same operations fail as by the given plan, and they always will. -/
structure Lasts (plan faults : List PlannedFault) : Prop where
  lasting : ∀ f ∈ faults, f.left = none
  same : ∀ op path, (planned op path faults).1 = (planned op path plan).1

theorem Lasts.refl {plan : List PlannedFault} (h : ∀ f ∈ plan, f.left = none) : Lasts plan plan :=
  ⟨h, fun _ _ => rfl⟩

theorem applies_hit {f : PlannedFault} (h : f.left = none) (op : FileOp) (path : Path) :
    f.hit.applies op path = f.applies op path := by
  simp [PlannedFault.applies, PlannedFault.hit, h]

theorem lasting_planned {faults : List PlannedFault} (h : ∀ f ∈ faults, f.left = none)
    (op : FileOp) (path : Path) : Lasts faults (planned op path faults).2 := by
  induction faults with
  | nil => exact Lasts.refl h
  | cons f rest ih =>
    have hf := h f (List.mem_cons_self ..)
    have hrest : ∀ g ∈ rest, g.left = none := fun g hg => h g (List.mem_cons_of_mem _ hg)
    obtain ⟨hlast, hsame⟩ := ih hrest
    by_cases ha : f.applies op path = true
    · -- The fault is hit, and applies to what it applied to.
      simp only [planned, if_pos ha]
      constructor
      · intro g hg
        rcases List.mem_cons.1 hg with rfl | hg
        · simp [PlannedFault.hit, hf]
        · exact hrest g hg
      · intro op' path'
        simp only [planned, applies_hit hf]
        split
        · rfl
        · rfl
    · simp only [planned, if_neg ha]
      constructor
      · intro g hg
        rcases List.mem_cons.1 hg with rfl | hg
        · exact hf
        · exact hlast g hg
      · intro op' path'
        simp only [planned]
        split
        · rfl
        · exact hsame op' path'

theorem Lasts.planned {plan faults : List PlannedFault} (h : Lasts plan faults) (op : FileOp)
    (path : Path) : Lasts plan (planned op path faults).2 := by
  obtain ⟨hlast, hsame⟩ := lasting_planned h.lasting op path
  exact ⟨hlast, fun op' path' => (hsame op' path').trans (h.same op' path')⟩

/-- Where nothing fails there are no faults. -/
theorem Lasts.eq_nil {faults : List PlannedFault} (h : Lasts [] faults) : faults = [] := by
  cases faults with
  | nil => rfl
  | cons f rest =>
    have hnone := h.same f.op f.path
    have happlies : f.applies f.op f.path = true := by
      simp [PlannedFault.applies, h.lasting f (List.mem_cons_self ..)]
    simp [Inlay.planned, happlies] at hnone

end Inlay
