import Inlay.Proofs.Volume.Effects
import Inlay.Proofs.Workspace.Faults

/-!
# Actions with one effect

Rules for actions that give the same result and do the same on every volume of some kind, under
faults that last (`Acts`). Steps that only look are put in front without further conditions
(`Idles.bind`); after a step that changes something the rest is asked about the volumes that it
leaves (`Acts.bind`).
-/

namespace Inlay.Action

variable {α β : Type}

/-- On the volumes of a kind the action gives the result and leaves the volume alone. -/
def Idles (plan : List PlannedFault) (kind : Volume → Prop) (a : Action α)
    (result : Except Failure α) : Prop :=
  ∀ s, kind s.volume → Lasts plan s.faults →
    ∃ t, a.runOn s = (result, t) ∧ Lasts plan t.faults ∧ t.volume = s.volume

variable {plan : List PlannedFault} {kind next : Volume → Prop} {a : Action α}
  {f : α → Action β} {x : α} {result : Except Failure β} {failure : Failure}

/-! ### Actions that only look -/

theorem Idles.bind_error (h : Idles plan kind a (.error failure)) :
    Idles plan kind (a >>= f) (.error failure) := by
  intro s hk hl
  obtain ⟨t, hrun, hrest⟩ := h s hk hl
  exact ⟨t, runOn_bind_of_error hrun, hrest⟩

theorem Idles.bind_idles (h : Idles plan kind a (.ok x)) (hf : Idles plan kind (f x) result) :
    Idles plan kind (a >>= f) result := by
  intro s hk hl
  obtain ⟨t, hrun, hlasts, hvolume⟩ := h s hk hl
  rw [← hvolume] at hk ⊢
  rw [runOn_bind_of_ok hrun]
  exact hf t hk hlasts

theorem idles_of_runOn {r : Except Failure α} (h : ∀ s, a.runOn s = (r, s)) :
    Idles plan kind a r :=
  fun s _ hl => ⟨s, h s, hl, rfl⟩

theorem idles_log (level : Int) (logger message : String) :
    Idles plan kind (log level logger message) (.ok ()) := fun s _ hl =>
  ⟨_, runOn_log level logger message s, by rwa [Workspace.logged_faults], s.logged_volume _⟩

section
variable {op : FileOp} {path : Path}

theorem idles_guard (h : (planned op path plan).1 = none) :
    Idles plan kind (guard op path) (.ok ()) := by
  intro s _ hl
  refine ⟨{ s with faults := (planned op path s.faults).2 }, ?_, hl.planned op path, rfl⟩
  rw [runOn_guard, hl.same, h]

theorem idles_guard_error {errno : Errno} (h : (planned op path plan).1 = some errno) :
    Idles plan kind (guard op path) (.error (.os (.of errno path))) := by
  intro s _ hl
  refine ⟨{ s with faults := (planned op path s.faults).2 }, ?_, hl.planned op path, rfl⟩
  rw [runOn_guard, hl.same, h]

end

variable [Alphabet]

theorem idles_onVolume {path : Path} (hu : Path.IsUsable path)
    {g : Volume → Except Errno Volume} {errno : Errno} (h : ∀ v, kind v → g v = .error errno) :
    Idles plan kind (onVolume path g) (.error (.os (.of errno path))) := by
  intro s hk hl
  exact ⟨s, by rw [runOn_onVolume hu, h _ hk], hl, rfl⟩

theorem idles_onVolume_of_refused {path : Path} {refusal : PathRefusal}
    (h : Path.refusal? path = some refusal) (g : Volume → Except Errno Volume) :
    Idles plan kind (onVolume path g) (.error (.noPath refusal)) :=
  idles_of_runOn fun s => runOn_onVolume_of_refused h g s

/-! ### Actions with an effect -/

/-- On the volumes of a kind the action gives the result and has the effect. -/
def Acts (plan : List PlannedFault) (kind : Volume → Prop) (a : Action α)
    (result : Except Failure α) (e : Effect) : Prop :=
  ∀ s, kind s.volume → Lasts plan s.faults →
    ∃ t, a.runOn s = (result, t) ∧ Lasts plan t.faults ∧ s.volume.Changed t.volume e

variable {e e' : Effect}

theorem Idles.acts {r : Except Failure α} (h : Idles plan kind a r) :
    Acts plan kind a r Effect.nothing := by
  intro s hk hl
  obtain ⟨t, hrun, hlasts, hvolume⟩ := h s hk hl
  exact ⟨t, hrun, hlasts, by rw [hvolume]; exact Volume.changed_nothing _⟩

theorem Idles.bind (h : Idles plan kind a (.ok x)) (hf : Acts plan kind (f x) result e) :
    Acts plan kind (a >>= f) result e := by
  intro s hk hl
  obtain ⟨t, hrun, hlasts, hvolume⟩ := h s hk hl
  rw [← hvolume] at hk ⊢
  rw [runOn_bind_of_ok hrun]
  exact hf t hk hlasts

theorem Acts.bind (h : Acts plan kind a (.ok x) e)
    (hnext : ∀ v w, kind v → v.Changed w e → next w) (hf : Acts plan next (f x) result e') :
    Acts plan kind (a >>= f) result (e'.after e) := by
  intro s hk hl
  obtain ⟨t, hrun, hlasts, hchanged⟩ := h s hk hl
  obtain ⟨u, hrest, hlasts', hchanged'⟩ := hf t (hnext _ _ hk hchanged) hlasts
  exact ⟨u, by rw [runOn_bind_of_ok hrun, hrest], hlasts', hchanged.trans hchanged'⟩

theorem Acts.bind_idles (h : Acts plan kind a (.ok x) e)
    (hf : Idles plan (fun _ => True) (f x) result) : Acts plan kind (a >>= f) result e := by
  intro s hk hl
  obtain ⟨t, hrun, hlasts, hchanged⟩ := h s hk hl
  obtain ⟨u, hrest, hlasts', hvolume⟩ := hf t trivial hlasts
  exact ⟨u, by rw [runOn_bind_of_ok hrun, hrest], hlasts', by rwa [hvolume]⟩

theorem Acts.bind_error (h : Acts plan kind a (.error failure) e) :
    Acts plan kind (a >>= f) (.error failure) e := by
  intro s hk hl
  obtain ⟨t, hrun, hrest⟩ := h s hk hl
  exact ⟨t, runOn_bind_of_error hrun, hrest⟩

theorem acts_onVolume {path : Path} (hu : Path.IsUsable path) {g : Volume → Except Errno Volume}
    (h : ∀ v, kind v → ∃ w, g v = .ok w ∧ v.Changed w e) :
    Acts plan kind (onVolume path g) (.ok ()) e := by
  intro s hk hl
  obtain ⟨w, hw, hchanged⟩ := h _ hk
  exact ⟨{ s with volume := w }, by rw [runOn_onVolume hu, hw], hl, hchanged⟩

end Inlay.Action
