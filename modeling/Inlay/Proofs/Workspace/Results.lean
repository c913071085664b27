import Inlay.Proofs.Workspace.Run

/-!
# What actions give

Some actions always give a result (`Succeeds`), such as everything that only reports. Of others it
is enough to know what they give if they give anything (`Returns`), or what they fail with
(`Throws`): operations on files fail with errors of the system, unless a path is refused.
-/

namespace Inlay.Action

variable {α β : Type}

def Succeeds (a : Action α) : Prop :=
  ∀ s, ∃ x t, a.runOn s = (.ok x, t)

theorem succeeds_log (level : Int) (logger message : String) :
    Succeeds (log level logger message) := fun s => ⟨(), _, runOn_log level logger message s⟩

def Returns (P : α → Prop) (a : Action α) : Prop :=
  ∀ s x t, a.runOn s = (.ok x, t) → P x

section
variable {P : α → Prop}

theorem returns_throw (f : Failure) : Returns P (throw f) := by
  intro s x t hrun
  simp at hrun

end

/-! ### What actions fail with -/

def Throws (P : Failure → Prop) (a : Action α) : Prop :=
  ∀ s f t, a.runOn s = (.error f, t) → P f

section
variable {P : Failure → Prop}

theorem throws_pure (x : α) : Throws P (pure x) := fun s f t h => by simp at h

theorem throws_throw {f : Failure} (h : P f) : Throws P (throw f : Action α) := by
  intro s g t hrun
  rw [runOn_throw, Prod.mk.injEq, Except.error.injEq] at hrun
  rwa [← hrun.1]

theorem throws_get : Throws P (get : Action Workspace) := fun s f t h => by simp at h

theorem throws_attempt (a : Action α) : Throws P (attempt a) := fun s f t h => by
  rw [runOn_attempt] at h
  simp at h

/-- The second action may rely on what the first one returns. -/
theorem throws_bind_of {Q : α → Prop} {a : Action α} {f : α → Action β} (ha : Throws P a)
    (hq : Returns Q a) (hf : ∀ x, Q x → Throws P (f x)) : Throws P (a >>= f) := by
  intro s failure t h
  cases hrun : a.runOn s with
  | mk result u =>
    cases result with
    | ok x =>
      rw [runOn_bind_of_ok hrun] at h
      exact hf x (hq s x u hrun) u failure t h
    | error e =>
      rw [runOn_bind_of_error hrun, Prod.mk.injEq, Except.error.injEq] at h
      rw [← h.1]
      exact ha s e u hrun

theorem throws_bind {a : Action α} {f : α → Action β} (ha : Throws P a)
    (hf : ∀ x, Throws P (f x)) : Throws P (a >>= f) :=
  throws_bind_of (Q := fun _ => True) ha (fun _ _ _ _ => trivial) fun x _ => hf x

theorem throws_of_succeeds {a : Action α} (h : Succeeds a) : Throws P a := by
  intro s f t hrun
  obtain ⟨x, u, hok⟩ := h s
  rw [hok] at hrun
  simp at hrun

theorem returns_attempt_of_throws {a : Action α} (h : Throws P a) :
    Returns (fun r => ∀ f, r = .error f → P f) (attempt a) := by
  rintro s r t hrun f rfl
  rw [runOn_attempt, Prod.mk.injEq, Except.ok.injEq] at hrun
  exact h s f _ (Prod.ext hrun.1 rfl)

end

/-! ### Operations on files -/

section
variable {P : Failure → Prop} (hos : ∀ e, P (.os e))
include hos

theorem throws_guard (op : FileOp) (path : Path) : Throws P (guard op path) := by
  intro s f t h
  rw [runOn_guard] at h
  split at h
  · next e _ =>
    rw [← Except.error.inj (Prod.mk.inj h).1]
    exact hos _
  · simp at h

theorem throws_passTaken {result : Except Failure Unit} (h : ∀ f, result = .error f → P f) :
    Throws P (passTaken result) := by
  unfold passTaken
  split
  · split
    · exact throws_pure _
    · exact throws_throw (hos _)
  · exact throws_throw (h _ rfl)
  · exact throws_pure _

theorem throws_absolute (path : Path) : Throws P (absolute path) := by
  unfold absolute
  refine throws_bind throws_get fun s => ?_
  dsimp only
  split
  · exact throws_pure _
  · exact throws_throw (hos _)

variable [Alphabet] {path : Path}
  (hrefused : ∀ refusal, Path.refusal? path = some refusal → P (.noPath refusal))

include hrefused in
theorem throws_onVolume (f : Volume → Except Errno Volume) : Throws P (onVolume path f) := by
  intro s failure t h
  cases hr : Path.refusal? path with
  | some refusal =>
    rw [runOn_onVolume_of_refused hr, Prod.mk.injEq, Except.error.injEq] at h
    rw [← h.1]
    exact hrefused refusal hr
  | none =>
    rw [runOn_onVolume (Path.refusal?_eq_none_iff.1 hr)] at h
    split at h
    · simp at h
    · rw [← Except.error.inj (Prod.mk.inj h).1]
      exact hos _

end

section
variable {P : Failure → Prop} (hos : ∀ e, P (.os e)) [Alphabet]
include hos

omit hos in
theorem isUsable_parent {path : Path} (h : Path.IsUsable path) :
    Path.IsUsable (Volume.parentAndName path).1 := by
  unfold Volume.parentAndName
  split
  · exact Path.isUsable_folder (Path.isUsable_folder h)
  · exact Path.isUsable_folder h

/-- Every folder that is made is part of the path. -/
theorem throws_addFolder (faulty : Bool) {path : Path}
    (hrefused : ¬ Path.IsUsable path → ∀ refusal, P (.noPath refusal)) :
    Throws P (addFolder faulty path) := by
  have hmake : Throws P (makeFolder faulty path) := by
    have hput := throws_onVolume hos (fun refusal hr => hrefused (fun hu => by
      rw [Path.refusal?_eq_none_iff.2 hu] at hr
      simp at hr) refusal) fun v => v.makeFolder path
    cases faulty with
    | true => exact throws_bind (throws_guard hos _ _) fun _ => hput
    | false => exact hput
  unfold addFolder
  refine throws_bind_of (throws_attempt _) (returns_attempt_of_throws hmake) fun made hmade => ?_
  split
  · refine throws_bind throws_get fun s => ?_
    split
    · exact throws_pure _
    · exact throws_throw (hos _)
  · exact throws_throw (hmade _ rfl)
  · exact throws_pure _

theorem throws_makeFolders (faulty : Bool) (fuel : Nat) {path : Path}
    (hrefused : ¬ Path.IsUsable path → ∀ refusal, P (.noPath refusal)) :
    Throws P (makeFolders faulty fuel path) := by
  induction fuel generalizing path with
  | zero => exact throws_addFolder hos faulty hrefused
  | succ fuel ih =>
    have hadd := throws_addFolder hos faulty hrefused
    unfold makeFolders
    dsimp only
    refine throws_bind throws_get fun s => ?_
    split
    · exact hadd
    · have hparent : Throws P (makeFolders faulty fuel (Volume.parentAndName path).1) :=
        ih fun hnot => hrefused fun hu => hnot (isUsable_parent hu)
      refine throws_bind_of (throws_attempt _) (returns_attempt_of_throws hparent)
        fun result hresult => throws_bind (throws_passTaken hos hresult) fun _ => ?_
      split
      · exact throws_pure _
      · exact hadd

theorem throws_ensureFolder (faulty : Bool) {path : Path}
    (hrefused : ¬ Path.IsUsable path → ∀ refusal, P (.noPath refusal)) :
    Throws P (ensureFolder faulty path) :=
  throws_makeFolders hos faulty _ hrefused

theorem throws_ensureParent {path : Path}
    (hrefused : ¬ Path.IsUsable path → ∀ refusal, P (.noPath refusal)) :
    Throws P (Action.ensureParent path) := by
  unfold Action.ensureParent makeParent
  refine throws_bind (throws_guard hos _ _) fun _ => ?_
  split
  · exact throws_pure _
  · exact throws_ensureFolder hos true fun hnot => hrefused fun hu => hnot (Path.isUsable_folder hu)

end

theorem throws_writeParts [Host] {P : Failure → Prop} (hos : ∀ e, P (.os e)) {path : Path}
    (hrefused : ∀ refusal, Path.refusal? path = some refusal → P (.noPath refusal))
    {parts : List Text}
    (hcodec : ∀ fault, (encodeParts .utf8 parts).1 = some fault → P (.codec fault)) :
    Throws P (writeParts path parts) := by
  have hput := fun content => throws_onVolume hos hrefused fun v => v.write path content
  unfold writeParts
  refine throws_bind (hput _) fun _ => ?_
  dsimp only
  refine throws_bind (hput _) fun _ => ?_
  split
  · next f hf => exact throws_throw (hcodec f hf)
  · exact throws_pure _

end Inlay.Action
