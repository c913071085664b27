import Inlay.Proofs.Workspace.Run

/-!
# What files decide

An action that looks at a part of a workspace only gives the same on two that agree there, and
leaves the same there (`Sees`). Actions on files look at the volume and at the plan of faults
(`SeesFiles`).
-/

namespace Inlay

/-- The files are the same, and so is what fails on them. -/
structure Workspace.SameFiles (s t : Workspace) : Prop where
  volume : t.volume = s.volume
  faults : t.faults = s.faults

theorem Workspace.SameFiles.refl (s : Workspace) : s.SameFiles s := ⟨rfl, rfl⟩

theorem Workspace.SameFiles.trans {s t u : Workspace} (h : s.SameFiles t) (h' : t.SameFiles u) :
    s.SameFiles u :=
  ⟨h'.volume.trans h.volume, h'.faults.trans h.faults⟩

theorem Workspace.sameFiles_logged (s : Workspace) (record : LogRecord) :
    s.SameFiles (s.logged record) :=
  ⟨s.logged_volume record, s.logged_faults record⟩

theorem Workspace.SameFiles.logged {s t : Workspace} (h : s.SameFiles t) (record : LogRecord) :
    (s.logged record).SameFiles (t.logged record) :=
  ⟨by simp [h.volume], by simp [h.faults]⟩

namespace Action

variable {α β : Type}

/-- On workspaces that are alike, an action gives the same and leaves them alike. -/
def Sees (R : Workspace → Workspace → Prop) (a : Action α) : Prop :=
  ∀ s t, R s t → (a.runOn t).1 = (a.runOn s).1 ∧ R (a.runOn s).2 (a.runOn t).2

abbrev SeesFiles (a : Action α) : Prop := Sees Workspace.SameFiles a

/-! ### Putting actions together -/

section
variable {R : Workspace → Workspace → Prop}

theorem sees_pure (x : α) : Sees R (pure x) := fun _ _ h => ⟨rfl, h⟩

theorem sees_throw (f : Failure) : Sees R (throw f : Action α) := fun _ _ h => ⟨rfl, h⟩

theorem sees_bind {a : Action α} {f : α → Action β} (ha : Sees R a) (hf : ∀ x, Sees R (f x)) :
    Sees R (a >>= f) := by
  intro s t h
  have hrun := ha s t h
  rw [runOn_bind, runOn_bind]
  cases hs : a.runOn s with
  | mk r s' =>
    cases ht : a.runOn t with
    | mk r' t' =>
      rw [hs, ht] at hrun
      obtain ⟨hr, hsame⟩ := hrun
      obtain rfl : r' = r := hr
      cases r' with
      | ok x => exact hf x s' t' hsame
      | error e => exact ⟨rfl, hsame⟩

/-- What is done with a workspace may depend on what is alike. -/
theorem sees_get {f : Workspace → Action β} (h : ∀ s t, R s t → f t = f s)
    (hf : ∀ s, Sees R (f s)) : Sees R (get >>= f) := by
  intro s t hsame
  rw [runOn_bind_of_ok (runOn_get s), runOn_bind_of_ok (runOn_get t), h s t hsame]
  exact hf s s t hsame

theorem sees_attempt {a : Action α} (h : Sees R a) : Sees R (attempt a) := by
  intro s t hsame
  obtain ⟨hresult, hafter⟩ := h s t hsame
  exact ⟨by rw [runOn_attempt, runOn_attempt, hresult], hafter⟩

theorem sees_mapM {f : α → Action β} (h : ∀ x, Sees R (f x)) (xs : List α) :
    Sees R (xs.mapM f) := by
  induction xs with
  | nil => exact sees_pure _
  | cons x xs ih =>
    rw [List.mapM_cons]
    exact sees_bind (h x) fun _ => sees_bind ih fun _ => sees_pure _

theorem sees_flatMapM {f : α → Action (List β)} (h : ∀ x, Sees R (f x)) (xs : List α) :
    Sees R (xs.flatMapM f) := by
  induction xs with
  | nil => exact sees_pure _
  | cons x xs ih =>
    rw [List.flatMapM_cons]
    exact sees_bind (h x) fun _ => sees_bind ih fun _ => sees_pure _

theorem sees_need (key : String) (value : Option α) : Sees R (need key value) := by
  cases value with
  | none => exact sees_throw _
  | some x => exact sees_pure x

end

theorem seesFiles_log (level : Int) (logger message : String) :
    SeesFiles (log level logger message) := fun _ _ h => ⟨rfl, h.logged _⟩

/-! ### Operations on files -/

theorem seesFiles_guard (op : FileOp) (path : Path) : SeesFiles (guard op path) := by
  intro s t h
  rw [runOn_guard, runOn_guard, h.faults]
  exact ⟨rfl, h.volume, rfl⟩

theorem sees_passTaken {R : Workspace → Workspace → Prop} (result : Except Failure Unit) :
    Sees R (passTaken result) := by
  unfold passTaken
  split
  · split
    · exact sees_pure _
    · exact sees_throw _
  · exact sees_throw _
  · exact sees_pure _

theorem seesFiles_listFolder (path : Path) : SeesFiles (listFolder path) := by
  unfold listFolder
  refine sees_bind (seesFiles_guard _ _) fun _ =>
    sees_get (fun s t h => by rw [h.volume]) fun s => ?_
  split
  · exact sees_pure _
  · exact sees_throw _

theorem seesFiles_statEntry (path : Path) : SeesFiles (statEntry path) := by
  unfold statEntry
  refine sees_bind (seesFiles_guard _ _) fun _ =>
    sees_get (fun s t h => by rw [h.volume]) fun s => ?_
  split
  · exact sees_pure _
  · exact sees_throw _

section
variable [Alphabet]

variable {R : Workspace → Workspace → Prop}

theorem sees_reach (path : Path) : Sees R (reach path) := by
  unfold reach
  split
  · exact sees_throw _
  · exact sees_pure _

theorem sees_onVolume (hsame : ∀ s t, R s t → t.volume = s.volume)
    (hput : ∀ s t v, R s t → R { s with volume := v } { t with volume := v }) (path : Path)
    (f : Volume → Except Errno Volume) : Sees R (onVolume path f) := by
  intro s t h
  cases hp : Path.refusal? path with
  | some refusal =>
    rw [runOn_onVolume_of_refused hp, runOn_onVolume_of_refused hp]
    exact ⟨rfl, h⟩
  | none =>
    have hu := Path.refusal?_eq_none_iff.1 hp
    rw [runOn_onVolume hu, runOn_onVolume hu, hsame s t h]
    cases f s.volume with
    | ok v => exact ⟨rfl, hput s t v h⟩
    | error e => exact ⟨rfl, h⟩

theorem seesFiles_onVolume (path : Path) (f : Volume → Except Errno Volume) :
    SeesFiles (onVolume path f) :=
  sees_onVolume (fun _ _ h => h.volume) (fun _ _ _ h => ⟨rfl, h.faults⟩) path f

end

variable [Host]

theorem seesFiles_readBytes (path : Path) : SeesFiles (readBytes path) := by
  unfold readBytes
  refine sees_bind (sees_reach _) fun _ =>
    sees_get (fun s t h => by rw [h.volume]) fun s => ?_
  split
  · exact sees_pure _
  · exact sees_throw _

theorem seesFiles_checkName (name : Text) : SeesFiles (checkName name) := by
  unfold checkName
  split
  · exact sees_throw _
  · split
    · exact sees_throw _
    · exact sees_pure _

theorem seesFiles_codec (name : Text) : SeesFiles (Action.codec name) := by
  unfold Action.codec
  split
  · exact sees_pure _
  · exact sees_throw _
  · exact sees_throw _

theorem seesFiles_readSource (path : Path) (encoding : Text) :
    SeesFiles (readSource path encoding) := by
  unfold readSource readText
  refine sees_bind (seesFiles_guard _ _) fun _ => sees_bind (seesFiles_checkName _)
    fun _ => sees_bind (seesFiles_readBytes _) fun content =>
      sees_bind (seesFiles_codec _) fun codec => ?_
  split
  · exact sees_pure _
  · exact sees_throw _

theorem seesFiles_writeOutput (path : Path) (text encoding : Text) :
    SeesFiles (writeOutput path text encoding) := by
  unfold writeOutput writeText
  refine sees_bind (seesFiles_guard _ _) fun _ => sees_bind (seesFiles_checkName _)
    fun _ => sees_bind (seesFiles_onVolume _ _) fun _ =>
      sees_bind (seesFiles_codec _) fun codec => ?_
  split
  · exact seesFiles_onVolume _ _
  · exact sees_throw _

omit [Host] in
theorem seesFiles_absolute (path : Path) : SeesFiles (absolute path) := by
  unfold absolute
  refine sees_get (fun s t h => by rw [h.volume]) fun s => ?_
  dsimp only
  split
  · exact sees_pure _
  · exact sees_throw _

/-! ### Making folders -/

section
variable {R : Workspace → Workspace → Prop} (hsame : ∀ s t, R s t → t.volume = s.volume)
  {faulty : Bool} (hmake : ∀ path, Sees R (makeFolder faulty path))
include hsame hmake

theorem sees_addFolder (path : Path) : Sees R (addFolder faulty path) := by
  unfold addFolder
  refine sees_bind (sees_attempt (hmake path)) fun result => ?_
  split
  · refine sees_get (fun s t h => by rw [hsame s t h]) fun s => ?_
    split
    · exact sees_pure _
    · exact sees_throw _
  · exact sees_throw _
  · exact sees_pure _

theorem sees_makeFolders (fuel : Nat) (path : Path) : Sees R (makeFolders faulty fuel path) := by
  induction fuel generalizing path with
  | zero => exact sees_addFolder hsame hmake path
  | succ fuel ih =>
    have hadd := sees_addFolder hsame hmake path
    unfold makeFolders
    dsimp only
    refine sees_get (fun s t h => by rw [hsame s t h]) fun s => ?_
    split
    · exact hadd
    · refine sees_bind (sees_attempt (ih _)) fun result =>
        sees_bind (sees_passTaken result) fun _ => ?_
      split
      · exact sees_pure _
      · exact hadd

end

theorem seesFiles_ensureParent (path : Path) : SeesFiles (ensureParent path) := by
  unfold ensureParent makeParent ensureFolder
  refine sees_bind (seesFiles_guard _ _) fun _ => ?_
  split
  · exact sees_pure _
  · exact sees_makeFolders (fun _ _ h => h.volume)
      (fun path => sees_bind (seesFiles_guard _ _) fun _ => seesFiles_onVolume path _) _ _

end Action

end Inlay
