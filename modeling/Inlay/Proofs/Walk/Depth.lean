import Inlay.Command.Walk
import Inlay.Proofs.Volume.Links

/-!
# How deep a walk goes

A folder may be entered again through a link. As a way follows at most `linkLimit` links, and enters
no more names than there are entries between two of them, no folder is reached by more names than
the walk has levels (`Sound.length_le_depthBound`).
-/

namespace Inlay.Volume

variable [Alphabet]

variable {v : Volume}

/-- Between two links a way only goes down, and a place is no longer than the list of entries. -/
theorem Sound.length_le_of_follow (h : v.Sound) {links : Nat} {here found : Place}
    {names tail : List Text} (hnames : ∀ n ∈ names, Path.IsName n)
    (hf : v.follow true links here (names ++ tail) = .ok (.found found)) :
    names.length ≤ links * (v.entries.length + 1) + (v.entries.length - here.length) := by
  induction names generalizing links here with
  | nil => exact Nat.zero_le _
  | cons name rest ih =>
    obtain ⟨hname, hrest⟩ := List.forall_mem_cons.1 hnames
    rw [List.cons_append] at hf
    obtain ⟨target, more, _, rfl, hgoes⟩ | ⟨⟨entry, hentry⟩, hgoes⟩ :=
      (cases_of_follow_name hname.2.2.1 hname.2.2.2 (Or.inl rfl) hf).2
    · -- Behind the link every folder may be entered once more.
      rw [hgoes _ _ (Or.inl rfl)] at hf
      obtain ⟨links', here', hle, _, hf⟩ := exists_follow_of_append (steps target) (Or.inl rfl) hf
      have hlen := ih hrest hf
      have hmul := Nat.mul_le_mul_right (v.entries.length + 1) hle
      rw [List.length_cons, Nat.succ_mul]
      omega
    · rw [hgoes _ _ (Or.inl rfl)] at hf
      have hlen := ih hrest hf
      have hplace := h.length_le hentry
      rw [List.length_append, List.length_singleton] at hlen hplace
      rw [List.length_cons]
      omega

theorem Sound.length_le_depthBound (h : v.Sound) {root : Path} {way : List Text}
    (hway : ∀ n ∈ way, Path.IsName n) (hf : v.isFolder (Path.descend root way) = true) :
    way.length ≤ Walk.depthBound v := by
  obtain ⟨found, hlocate, _⟩ := isFolder_iff.1 hf
  have hf := follow_of_locate hlocate
  rw [steps, Path.components_descend root (Path.isPiece_of_isName hway), List.append_assoc] at hf
  obtain ⟨links, here, hle, _, hf⟩ :=
    exists_follow_of_append (Path.components root) (Or.inl rfl) hf
  have hlen := h.length_le_of_follow hway hf
  have hmul := Nat.mul_le_mul_right (v.entries.length + 1) hle
  rw [Walk.depthBound, Nat.succ_mul]
  omega

end Inlay.Volume
