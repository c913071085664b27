import Inlay.Proofs.Volume.Writing
import Inlay.Proofs.Workspace.Run
import Inlay.Workspace.Home

/-!
# What a run finds around it

A path is read in an environment and from a current folder. Files are read and written without
changing either, and a sound volume stays sound (`Abides`). What an action finds out from nothing
else is found out again (`Repeats`).
-/

namespace Inlay

/-- Paths mean the same, and what has an absolute form keeps it. -/
structure Workspace.SameHome (s t : Workspace) : Prop where
  environment : t.environment = s.environment
  current : t.volume.current = s.volume.current
  standing : s.volume.get? s.volume.current = some .folder →
    t.volume.get? s.volume.current = some .folder

theorem Workspace.SameHome.trans {s t u : Workspace} (h : s.SameHome t) (h' : t.SameHome u) :
    s.SameHome u :=
  ⟨h'.environment.trans h.environment, h'.current.trans h.current, fun hs =>
    h.current ▸ h'.standing (h.current ▸ h.standing hs)⟩

variable [Alphabet]

structure Workspace.Abides (s t : Workspace) : Prop extends s.SameHome t where
  sound : s.volume.Sound → t.volume.Sound

theorem Workspace.Abides.refl (s : Workspace) : s.Abides s := ⟨⟨rfl, rfl, id⟩, id⟩

theorem Workspace.Abides.trans {s t u : Workspace} (h : s.Abides t) (h' : t.Abides u) :
    s.Abides u :=
  ⟨h.toSameHome.trans h'.toSameHome, fun hs => h'.sound (h.sound hs)⟩

theorem Workspace.abides_of_holds {s : Workspace} {v : Volume} (h : s.volume.Holds v) :
    s.Abides { s with volume := v } := ⟨⟨rfl, h.current, h.folders _⟩, h.sound⟩

theorem Workspace.abides_logged (s : Workspace) (record : LogRecord) :
    s.Abides (s.logged record) := by
  unfold logged
  split
  · exact ⟨⟨rfl, rfl, id⟩, id⟩
  · exact Abides.refl s

namespace Action

variable {α β : Type}

def Abides (a : Action α) : Prop := ∀ s : Workspace, s.Abides (a.runOn s).2

theorem Abides.of_runOn {a : Action α} (h : a.Abides) {s t : Workspace} {r : Except Failure α}
    (hr : a.runOn s = (r, t)) : s.Abides t :=
  Steps.of_runOn h hr

theorem Steps.abides {a : Action α} (h : Steps Eq a) : Abides a :=
  h.of_eq Workspace.Abides.refl

theorem abides_pure (x : α) : Abides (pure x) := fun s => .refl s

theorem abides_throw (f : Failure) : Abides (throw f : Action α) := fun s => .refl s

theorem abides_get : Abides (get : Action Workspace) := fun s => .refl s

theorem abides_log (level : Int) (logger message : String) : Abides (log level logger message) :=
  fun s => by
    rw [runOn_log]
    exact s.abides_logged _

theorem abides_bind {a : Action α} {f : α → Action β} (ha : Abides a) (hf : ∀ x, Abides (f x)) :
    Abides (a >>= f) :=
  steps_bind (R := Workspace.Abides) (fun _ _ _ => Workspace.Abides.trans) ha hf

theorem abides_attempt {a : Action α} (h : Abides a) : Abides (attempt a) := fun s => h s

theorem abides_guard (op : FileOp) (path : Path) : Abides (guard op path) := fun s => by
  rw [runOn_guard]
  exact ⟨⟨rfl, rfl, id⟩, id⟩

theorem abides_onVolume {path : Path} {f : Volume → Except Errno Volume}
    (h : ∀ v w : Volume, Path.IsUsable path → f v = .ok w → v.Holds w) :
    Abides (onVolume path f) := fun s => by
  cases hp : Path.refusal? path with
  | some refusal =>
    rw [runOn_onVolume_of_refused hp]
    exact .refl s
  | none =>
    have hu := Path.refusal?_eq_none_iff.1 hp
    rw [runOn_onVolume hu]
    cases hf : f s.volume with
    | ok w => exact Workspace.abides_of_holds (h _ _ hu hf)
    | error e => exact .refl s

theorem abides_forIn {f : α → Action Unit} (h : ∀ x, Abides (f x)) (xs : List α) :
    Abides (forIn xs () fun x _ => do f x; return .yield ()) := by
  induction xs with
  | nil => exact abides_pure ()
  | cons x xs ih =>
    simp only [List.forIn_cons, bind_assoc, pure_bind]
    exact abides_bind (h x) fun _ => ih

end Action

end Inlay

/-! ### Files -/

namespace Inlay.Action

section
variable [Host]

theorem abides_readText (path : Path) (encoding : Text) : Abides (readText path encoding) := by
  unfold readText
  refine abides_bind (eq_checkName encoding).abides fun _ => abides_bind (eq_readBytes path).abides
    fun content => abides_bind (eq_codec encoding).abides fun codec => ?_
  split
  · exact abides_pure _
  · exact abides_throw _

theorem abides_write (path : Path) (content : Bytes) :
    Abides (onVolume path (·.write path content)) :=
  abides_onVolume fun _ _ hu hw => Volume.holds_write hu hw

theorem abides_writeParts (path : Path) (parts : List Text) : Abides (writeParts path parts) :=
  steps_writeParts (R := Workspace.Abides) .refl (fun _ _ _ => .trans) (abides_write path) parts

theorem abides_ensureParent (path : Path) : Abides (ensureParent path) :=
  steps_ensureParent (R := Workspace.Abides) .refl (fun _ _ _ => .trans) abides_guard
    (fun _ => abides_onVolume fun _ _ hu hw => Volume.holds_makeFolder hu hw) path

end

/-! ### Where things are -/

variable {α β : Type}

/-- What the action finds is found again, as long as paths mean the same. -/
def Repeats (a : Action α) : Prop :=
  ∀ s t x s', s.SameHome t → a.runOn s = (.ok x, s') → s' = s ∧ a.runOn t = (.ok x, t)

theorem repeats_pure (x : α) : Repeats (pure x) := by
  intro s t y s' _ h
  obtain ⟨hy, rfl⟩ := Prod.mk.inj h
  obtain rfl := Except.ok.inj hy
  exact ⟨rfl, rfl⟩

theorem repeats_bind {a : Action α} {f : α → Action β} (ha : Repeats a) (hf : ∀ x, Repeats (f x)) :
    Repeats (a >>= f) := by
  intro s t y s' hst h
  obtain ⟨x, s₁, hx, hy⟩ := exists_of_runOn_bind h
  obtain ⟨rfl, hx'⟩ := ha s t x s₁ hst hx
  obtain ⟨rfl, hy'⟩ := hf x s₁ t y s' hst hy
  exact ⟨rfl, by rw [runOn_bind_of_ok hx', hy']⟩

theorem runOn_absolute {s : Workspace} {path : Path}
    (h : path.isAbsolute ∨ s.volume.get? s.volume.current = some .folder) :
    (absolute path).runOn s = (.ok (s.volume.absolute path), s) := by
  unfold absolute
  rw [runOn_bind_of_ok (runOn_get s)]
  simp only [if_pos h]
  rfl

theorem runOn_absolute_of_gone {s : Workspace} {path : Path}
    (h : ¬ (path.isAbsolute ∨ s.volume.get? s.volume.current = some .folder)) :
    (absolute path).runOn s = (.error (.os ⟨Errno.noEntry.code, Errno.noEntry.text, none⟩), s) := by
  unfold absolute
  rw [runOn_bind_of_ok (runOn_get s)]
  simp only [if_neg h]
  rfl

theorem of_runOn_absolute {s t : Workspace} {path full : Path}
    (h : (absolute path).runOn s = (.ok full, t)) :
    (path.isAbsolute ∨ s.volume.get? s.volume.current = some .folder) ∧
      full = s.volume.absolute path ∧ t = s := by
  unfold absolute at h
  rw [runOn_bind_of_ok (runOn_get s)] at h
  dsimp only at h
  split at h
  · next hpath =>
    obtain ⟨hfull, rfl⟩ := Prod.mk.inj h
    exact ⟨hpath, (Except.ok.inj hfull).symm, rfl⟩
  · simp at h

theorem repeats_absolute (path : Path) : Repeats (absolute path) := by
  intro s t full s' hst h
  obtain ⟨hpath, rfl, rfl⟩ := of_runOn_absolute h
  have hsame : t.volume.absolute path = s'.volume.absolute path := by
    rw [Volume.absolute, Volume.absolute, Volume.currentPath, Volume.currentPath, hst.current]
  refine ⟨rfl, ?_⟩
  rw [runOn_absolute (hpath.imp_right fun hs => hst.current ▸ hst.standing hs), hsame]

end Inlay.Action

/-! ### The home of the program -/

namespace Inlay.Home

/-- What depends on the environment alone depends on nothing that changes. -/
theorem repeats_of_environment {α : Type} {f : Environment → Action α}
    (h : ∀ environment, (f environment).Repeats) :
    Action.Repeats (do f (← get).environment) := by
  intro s t x s' hst hr
  rw [Action.runOn_bind_of_ok (Action.runOn_get s)] at hr
  rw [Action.runOn_bind_of_ok (Action.runOn_get t), hst.environment]
  exact h s.environment s t x s' hst hr

theorem repeats_normalize (path fallback : Text) : (normalize path fallback).Repeats :=
  repeats_of_environment fun environment => Action.repeats_absolute (Path.expandVariables
    environment (Path.expandHome environment
      (if (Text.strip path).isEmpty then fallback else Text.strip path)))

variable [Host]

theorem repeats_data (style : HomeStyle) : (data style false).Repeats :=
  repeats_of_environment fun environment =>
    Action.repeats_absolute (dataFolder style environment)

theorem repeats_settingsFile : settingsFile.Repeats :=
  Action.repeats_bind (repeats_data .unix) fun _ => Action.repeats_pure _

end Inlay.Home
