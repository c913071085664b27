import Inlay.Proofs.Path.Usable
import Inlay.Workspace.Files

/-!
# Running actions

What an action gives on a workspace, for every way of putting actions together. What it does to the
workspace however it ends is a step of some relation (`Steps`): it leaves the volume alone
(`Keeps`), or does with it what another relation allows (`Moves`).
-/

namespace Inlay

/-- A workspace that holds some entries, seen from the root, and nothing else. -/
def Workspace.holding (entries : List (Place × Entry)) : Workspace :=
  { Workspace.initial [] [] with volume := ⟨entries, [], .unbounded⟩ }

def Workspace.logged (s : Workspace) (record : LogRecord) : Workspace :=
  if s.logging.passes record then
    { s with logging := s.logging.enqueue record, journal := s.journal ++ [record] }
  else s

@[simp] theorem Workspace.logged_volume (s : Workspace) (record : LogRecord) :
    (s.logged record).volume = s.volume := by
  unfold logged
  split <;> rfl

@[simp] theorem Workspace.logged_faults (s : Workspace) (record : LogRecord) :
    (s.logged record).faults = s.faults := by
  unfold logged
  split <;> rfl

/-- A codec can be looked up under the name, and there is one. -/
structure Encoding.IsName [Host] (name : Text) : Prop where
  encodable : Encoding.nameFault? name = none
  zeroFree : '\x00' ∉ name
  known : (Encoding.find? name).isSome = true

namespace Action

variable {α β : Type}

/-! ### Putting actions together -/

@[simp] theorem runOn_pure (x : α) (s : Workspace) : (pure x : Action α).runOn s = (.ok x, s) := rfl

@[simp] theorem runOn_throw (f : Failure) (s : Workspace) :
    (throw f : Action α).runOn s = (.error f, s) := rfl

@[simp] theorem runOn_get (s : Workspace) : (get : Action Workspace).runOn s = (.ok s, s) := rfl

@[simp] theorem runOn_modify (g : Workspace → Workspace) (s : Workspace) :
    (modify g : Action PUnit).runOn s = (.ok ⟨⟩, g s) := rfl

theorem runOn_bind (a : Action α) (f : α → Action β) (s : Workspace) :
    (a >>= f).runOn s =
      match a.runOn s with
      | (.ok x, t) => (f x).runOn t
      | (.error e, t) => (.error e, t) := by
  simp only [runOn, ExceptT.run, bind, ExceptT.bind, ExceptT.mk, StateT.run, StateT.bind]
  cases h : a s with
  | mk r t =>
    cases r with
    | ok x => simp [ExceptT.bindCont]
    | error e =>
      simp only [ExceptT.bindCont]
      rfl

theorem runOn_bind_of_ok {a : Action α} {f : α → Action β} {s t : Workspace} {x : α}
    (h : a.runOn s = (.ok x, t)) : (a >>= f).runOn s = (f x).runOn t := by
  rw [runOn_bind, h]

theorem runOn_bind_of_error {a : Action α} {f : α → Action β} {s t : Workspace} {e : Failure}
    (h : a.runOn s = (.error e, t)) : (a >>= f).runOn s = (.error e, t) := by
  rw [runOn_bind, h]

theorem exists_of_runOn_bind {a : Action α} {f : α → Action β} {s s' : Workspace} {y : β}
    (h : (a >>= f).runOn s = (.ok y, s')) :
    ∃ x t, a.runOn s = (.ok x, t) ∧ (f x).runOn t = (.ok y, s') := by
  rw [runOn_bind] at h
  cases hr : a.runOn s with
  | mk r t =>
    rw [hr] at h
    cases r with
    | ok x => exact ⟨x, t, rfl, h⟩
    | error e => simp at h

@[simp] theorem runOn_attempt (a : Action α) (s : Workspace) :
    (attempt a).runOn s = (.ok (a.runOn s).1, (a.runOn s).2) := rfl

@[simp] theorem runOn_log (level : Int) (logger message : String) (s : Workspace) :
    (log level logger message).runOn s = (.ok (), s.logged ⟨level, logger, message⟩) := rfl

theorem runOn_need_some {key : String} {value : Option α} {x : α} (h : value = some x)
    (s : Workspace) : (need key value).runOn s = (.ok x, s) := by
  rw [h]
  rfl

theorem eq_of_runOn_need {key : String} {value : Option α} {x : α} {s t : Workspace}
    (h : (need key value).runOn s = (.ok x, t)) : value = some x ∧ t = s := by
  cases value with
  | none => simp [need] at h
  | some y =>
    simp only [need, runOn_pure, Prod.mk.injEq, Except.ok.injEq] at h
    exact ⟨by rw [h.1], h.2.symm⟩

/-! ### Operations -/

theorem runOn_guard (op : FileOp) (path : Path) (s : Workspace) :
    (guard op path).runOn s =
      (match (planned op path s.faults).1 with
        | some e => .error (.os (.of e path))
        | none => .ok (),
      { s with faults := (planned op path s.faults).2 }) := by
  unfold guard
  rw [runOn_bind_of_ok (runOn_get s), runOn_bind_of_ok (runOn_modify _ s)]
  cases (planned op path s.faults).1 with
  | none => rfl
  | some e => rfl

theorem planned_of_none {op : FileOp} {path : Path} {plan : List PlannedFault}
    (h : (planned op path plan).1 = none) : planned op path plan = (none, plan) := by
  induction plan with
  | nil => rfl
  | cons f rest ih =>
    unfold planned at h ⊢
    split
    · next ha => simp [ha] at h
    · next ha =>
      rw [if_neg ha] at h
      simp only [ih h]

theorem runOn_guard_of_none {op : FileOp} {path : Path} {s : Workspace}
    (h : (planned op path s.faults).1 = none) : (guard op path).runOn s = (.ok (), s) := by
  rw [runOn_guard, planned_of_none h]

theorem runOn_guard_of_nil {s : Workspace} (h : s.faults = []) (op : FileOp) (path : Path) :
    (guard op path).runOn s = (.ok (), s) :=
  runOn_guard_of_none (by rw [h, planned])

/-- A guard that lets pass leaves everything as it is. -/
theorem of_runOn_guard {op : FileOp} {path : Path} {s t : Workspace}
    (h : (guard op path).runOn s = (.ok (), t)) : (planned op path s.faults).1 = none ∧ t = s := by
  cases hp : (planned op path s.faults).1 with
  | some e =>
    rw [runOn_guard, hp] at h
    simp at h
  | none =>
    rw [runOn_guard_of_none hp] at h
    exact ⟨rfl, (Prod.mk.inj h).2.symm⟩

section
variable [Alphabet]

theorem runOn_reach {path : Path} (h : Path.IsUsable path) (s : Workspace) :
    (reach path).runOn s = (.ok (), s) := by
  rw [reach, Path.refusal?_eq_none_iff.2 h]
  rfl

theorem runOn_reach_of_refused {path : Path} {refusal : PathRefusal}
    (h : Path.refusal? path = some refusal) (s : Workspace) :
    (reach path).runOn s = (.error (.noPath refusal), s) := by
  rw [reach, h]
  rfl

theorem runOn_onVolume {path : Path} (h : Path.IsUsable path) (f : Volume → Except Errno Volume)
    (s : Workspace) :
    (onVolume path f).runOn s =
      match f s.volume with
      | .ok v => (.ok (), { s with volume := v })
      | .error e => (.error (.os (.of e path)), s) := by
  unfold onVolume
  rw [runOn_bind_of_ok (runOn_reach h s), runOn_bind_of_ok (runOn_get s)]
  cases f s.volume with
  | ok v => rfl
  | error e => rfl

theorem of_runOn_onVolume {path : Path} {f : Volume → Except Errno Volume} {s t : Workspace}
    (h : (onVolume path f).runOn s = (.ok (), t)) :
    Path.IsUsable path ∧ ∃ v, f s.volume = .ok v ∧ t = { s with volume := v } := by
  cases hp : Path.refusal? path with
  | some refusal =>
    unfold onVolume at h
    rw [runOn_bind_of_error (runOn_reach_of_refused hp s)] at h
    simp at h
  | none =>
    have hu := Path.refusal?_eq_none_iff.1 hp
    rw [runOn_onVolume hu] at h
    cases hf : f s.volume with
    | ok v =>
      rw [hf] at h
      exact ⟨hu, v, rfl, (Prod.mk.inj h).2.symm⟩
    | error e => simp [hf] at h

theorem runOn_onVolume_of_refused {path : Path} {refusal : PathRefusal}
    (h : Path.refusal? path = some refusal) (f : Volume → Except Errno Volume) (s : Workspace) :
    (onVolume path f).runOn s = (.error (.noPath refusal), s) := by
  unfold onVolume
  exact runOn_bind_of_error (runOn_reach_of_refused h s)

end

section
variable [Host]

theorem runOn_checkName {name : Text} (h : Encoding.IsName name) (s : Workspace) :
    (checkName name).runOn s = (.ok (), s) := by
  have hz : name.contains '\x00' = false := by simpa using h.zeroFree
  unfold checkName
  rw [h.encodable]
  simp only [hz, Bool.false_eq_true, if_false]
  rfl

theorem runOn_codec {name : Text} {codec : Codec} (h : Encoding.find? name = some (.text codec))
    (s : Workspace) : (Action.codec name).runOn s = (.ok codec, s) := by
  rw [Action.codec, h]
  rfl

theorem runOn_readBytes {path : Path} (h : Path.IsUsable path) (s : Workspace) :
    (readBytes path).runOn s =
      (match s.volume.read path with
        | .ok content => .ok content
        | .error e => .error (.os (.of e path)), s) := by
  unfold readBytes
  rw [runOn_bind_of_ok (runOn_reach h s), runOn_bind_of_ok (runOn_get s)]
  cases s.volume.read path with
  | ok content => rfl
  | error e => rfl

end

/-! ### However an action ends -/

/-- What an action does to the workspace is a step of the relation, even if it fails. -/
def Steps (R : Workspace → Workspace → Prop) (a : Action α) : Prop :=
  ∀ s, R s (a.runOn s).2

section
variable {R : Workspace → Workspace → Prop}

theorem Steps.of_runOn {a : Action α} (h : Steps R a) {s t : Workspace} {r : Except Failure α}
    (hr : a.runOn s = (r, t)) : R s t := by
  have hs := h s
  rwa [hr] at hs

variable (hr : ∀ s, R s s) (ht : ∀ s t u, R s t → R t u → R s u)

include hr in
/-- An action that leaves the workspace as it is makes no step. -/
theorem Steps.of_eq {a : Action α} (h : Steps Eq a) : Steps R a := by
  intro s
  rw [← h s]
  exact hr s

include ht in
theorem steps_bind {a : Action α} {f : α → Action β} (ha : Steps R a) (hf : ∀ x, Steps R (f x)) :
    Steps R (a >>= f) := by
  intro s
  rw [runOn_bind]
  split
  · next x t hrun => exact ht _ _ _ (ha.of_runOn hrun) (hf x t)
  · next e t hrun => exact ha.of_runOn hrun

include hr ht

theorem steps_mapM {f : α → Action β} {xs : List α} (h : ∀ x ∈ xs, Steps R (f x)) :
    Steps R (xs.mapM f) := by
  induction xs with
  | nil => exact fun s => hr s
  | cons x xs ih =>
    rw [List.mapM_cons]
    exact steps_bind ht (h x (List.mem_cons_self ..)) fun _ =>
      steps_bind ht (ih fun y hy => h y (List.mem_cons_of_mem _ hy)) fun _ => fun s => hr s

theorem steps_flatMapM {f : α → Action (List β)} (h : ∀ x, Steps R (f x)) (xs : List α) :
    Steps R (xs.flatMapM f) := by
  induction xs with
  | nil => exact fun s => hr s
  | cons x xs ih =>
    rw [List.flatMapM_cons]
    exact steps_bind ht (h x) fun _ => steps_bind ht ih fun _ => fun s => hr s

end

theorem eq_reach [Alphabet] (path : Path) : Steps Eq (reach path) := by
  unfold reach
  split
  · exact fun _ => rfl
  · exact fun _ => rfl

section
variable [Host]

theorem eq_checkName (name : Text) : Steps Eq (checkName name) := by
  unfold checkName
  split
  · exact fun _ => rfl
  · split
    · exact fun _ => rfl
    · exact fun _ => rfl

theorem eq_codec (name : Text) : Steps Eq (Action.codec name) := by
  unfold Action.codec
  split
  · exact fun _ => rfl
  · exact fun _ => rfl
  · exact fun _ => rfl

theorem eq_readBytes (path : Path) : Steps Eq (readBytes path) := by
  unfold readBytes
  refine steps_bind (R := Eq) (fun _ _ _ => Eq.trans) (eq_reach path) fun _ =>
    steps_bind (R := Eq) (fun _ _ _ => Eq.trans) (fun _ => rfl) fun s => ?_
  split
  · exact fun _ => rfl
  · exact fun _ => rfl

omit [Host] in
theorem eq_absolute (path : Path) : Steps Eq (absolute path) := by
  unfold absolute
  refine steps_bind (R := Eq) (fun _ _ _ => Eq.trans) (fun _ => rfl) fun s => ?_
  dsimp only
  split
  · exact fun _ => rfl
  · exact fun _ => rfl

end

/-! ### Operations of several steps -/

section
variable {R : Workspace → Workspace → Prop} (hr : ∀ s, R s s) (ht : ∀ s t u, R s t → R t u → R s u)
  [Host]

include hr in
omit [Host] in
theorem steps_pure (x : α) : Steps R (pure x) := hr

include hr in
omit [Host] in
theorem steps_throw (f : Failure) : Steps R (throw f : Action α) := hr

omit [Host] in
theorem steps_attempt {a : Action α} (h : Steps R a) : Steps R (attempt a) := fun s => h s

include hr ht

/-- A file is opened and then filled, and both are writes. -/
theorem steps_writeText {path : Path}
    (h : ∀ content, Steps R (onVolume path (·.write path content))) (text encoding : Text) :
    Steps R (writeText path text encoding) := by
  unfold writeText
  refine steps_bind ht ((eq_checkName _).of_eq hr) fun _ => steps_bind ht (h _) fun _ =>
    steps_bind ht ((eq_codec _).of_eq hr) fun codec => ?_
  split
  · exact h _
  · exact steps_throw hr _

theorem steps_writeParts {path : Path}
    (h : ∀ content, Steps R (onVolume path (·.write path content))) (parts : List Text) :
    Steps R (writeParts path parts) := by
  unfold writeParts
  refine steps_bind ht (h _) fun _ => ?_
  dsimp only
  refine steps_bind ht (h _) fun _ => ?_
  split
  · exact steps_throw hr _
  · exact steps_pure hr _

variable (hguard : ∀ op path, Steps R (guard op path))
  (hmake : ∀ path, Steps R (onVolume path (·.makeFolder path)))
include hguard hmake

/-! Making folders is a row of steps that each make one. -/

omit hr in
theorem steps_makeFolder (faulty : Bool) (path : Path) : Steps R (makeFolder faulty path) := by
  cases faulty with
  | true => exact steps_bind ht (hguard _ _) fun _ => hmake path
  | false => exact hmake path

theorem steps_addFolder (faulty : Bool) (path : Path) : Steps R (addFolder faulty path) := by
  unfold addFolder
  refine steps_bind ht (steps_attempt (steps_makeFolder ht hguard hmake faulty path)) fun made => ?_
  split
  · refine steps_bind ht hr fun s => ?_
    split
    · exact steps_pure hr _
    · exact steps_throw hr _
  · exact steps_throw hr _
  · exact steps_pure hr _

omit [Host] ht hguard hmake in
theorem steps_passTaken (result : Except Failure Unit) : Steps R (passTaken result) := by
  unfold passTaken
  split
  · split
    · exact steps_pure hr _
    · exact steps_throw hr _
  · exact steps_throw hr _
  · exact steps_pure hr _

theorem steps_makeFolders (faulty : Bool) (fuel : Nat) (path : Path) :
    Steps R (makeFolders faulty fuel path) := by
  induction fuel generalizing path with
  | zero => exact steps_addFolder hr ht hguard hmake faulty path
  | succ fuel ih =>
    have hadd := steps_addFolder hr ht hguard hmake faulty path
    unfold makeFolders
    dsimp only
    refine steps_bind ht hr fun s => ?_
    split
    · exact hadd
    · refine steps_bind ht (steps_attempt (ih _)) fun result =>
        steps_bind ht (steps_passTaken hr result) fun _ => ?_
      split
      · exact steps_pure hr _
      · exact hadd

theorem steps_ensureParent (path : Path) : Steps R (Action.ensureParent path) := by
  unfold Action.ensureParent makeParent ensureFolder
  refine steps_bind ht (hguard _ _) fun _ => ?_
  split
  · exact steps_pure hr _
  · exact steps_makeFolders hr ht hguard hmake _ _ _

end

/-! ### Actions that keep the volume -/

def Keeps (a : Action α) : Prop :=
  ∀ s, (a.runOn s).2.volume = s.volume

theorem keeps_pure (x : α) : Keeps (pure x) := fun _ => rfl

theorem keeps_throw (f : Failure) : Keeps (throw f : Action α) := fun _ => rfl

theorem keeps_get : Keeps (get : Action Workspace) := fun _ => rfl

theorem keeps_attempt {a : Action α} (h : Keeps a) : Keeps (attempt a) := fun s => h s

theorem keeps_log (level : Int) (logger message : String) : Keeps (log level logger message) :=
  fun s => s.logged_volume _

theorem keeps_need (key : String) (value : Option α) : Keeps (need key value) := by
  cases value with
  | none => exact keeps_throw _
  | some x => exact keeps_pure x

theorem keeps_guard (op : FileOp) (path : Path) : Keeps (guard op path) := by
  intro s
  rw [runOn_guard]

theorem Keeps.volume_eq {a : Action α} (h : Keeps a) {s t : Workspace} {r : Except Failure α}
    (hr : a.runOn s = (r, t)) : t.volume = s.volume :=
  Steps.of_runOn (R := fun s t => t.volume = s.volume) h hr

theorem Steps.keeps {a : Action α} (h : Steps Eq a) : Keeps a :=
  h.of_eq (R := fun s t => t.volume = s.volume) fun _ => rfl

/-! ### Actions that move the volume -/

def Moves (R : Volume → Volume → Prop) (a : Action α) : Prop :=
  ∀ s, R s.volume (a.runOn s).2.volume

section
variable {R : Volume → Volume → Prop} (hr : ∀ v, R v v) (ht : ∀ u v w, R u v → R v w → R u w)

theorem Moves.mono {R' : Volume → Volume → Prop} {a : Action α} (h : Moves R a)
    (hR : ∀ v w, R v w → R' v w) : Moves R' a := fun s => hR _ _ (h s)

theorem moves_attempt {a : Action α} (h : Moves R a) : Moves R (attempt a) := fun s => h s

include ht in
theorem moves_bind {a : Action α} {f : α → Action β} (ha : Moves R a) (hf : ∀ x, Moves R (f x)) :
    Moves R (a >>= f) :=
  steps_bind (R := fun s t => R s.volume t.volume) (fun _ _ _ => ht _ _ _) ha hf

include hr

theorem Keeps.moves {a : Action α} (h : Keeps a) : Moves R a := fun s => by
  rw [h s]
  exact hr _

theorem moves_onVolume [Alphabet] {path : Path} {f : Volume → Except Errno Volume}
    (h : ∀ v w, Path.IsUsable path → f v = .ok w → R v w) : Moves R (onVolume path f) := fun s => by
  cases hp : Path.refusal? path with
  | some refusal =>
    rw [runOn_onVolume_of_refused hp]
    exact hr _
  | none =>
    have hu := Path.refusal?_eq_none_iff.1 hp
    rw [runOn_onVolume hu]
    cases hf : f s.volume with
    | ok w => exact h _ _ hu hf
    | error e => exact hr _

include ht

theorem moves_mapM {f : α → Action β} {xs : List α} (h : ∀ x ∈ xs, Moves R (f x)) :
    Moves R (xs.mapM f) :=
  steps_mapM (R := fun s t => R s.volume t.volume) (fun _ => hr _) (fun _ _ _ => ht _ _ _) h

theorem moves_flatMapM {f : α → Action (List β)} (h : ∀ x, Moves R (f x)) (xs : List α) :
    Moves R (xs.flatMapM f) :=
  steps_flatMapM (R := fun s t => R s.volume t.volume) (fun _ => hr _) (fun _ _ _ => ht _ _ _) h xs

section
variable [Host]

theorem moves_writeText {path : Path}
    (h : ∀ v w content, Path.IsUsable path → v.write path content = .ok w → R v w)
    (text encoding : Text) : Moves R (writeText path text encoding) :=
  steps_writeText (R := fun s t => R s.volume t.volume) (fun _ => hr _) (fun _ _ _ => ht _ _ _)
    (fun content => moves_onVolume hr fun v w => h v w content) text encoding

theorem moves_writeParts {path : Path}
    (h : ∀ v w content, Path.IsUsable path → v.write path content = .ok w → R v w)
    (parts : List Text) : Moves R (writeParts path parts) :=
  steps_writeParts (R := fun s t => R s.volume t.volume) (fun _ => hr _) (fun _ _ _ => ht _ _ _)
    (fun content => moves_onVolume hr fun v w => h v w content) parts

theorem moves_ensureParent
    (h : ∀ v w path, Path.IsUsable path → v.makeFolder path = .ok w → R v w) (path : Path) :
    Moves R (Action.ensureParent path) :=
  steps_ensureParent (R := fun s t => R s.volume t.volume) (fun _ => hr _) (fun _ _ _ => ht _ _ _)
    (fun op path => (keeps_guard op path).moves hr)
    (fun path => moves_onVolume hr fun v w => h v w path) path

end

end

section
variable {f : α → Action β}

theorem keeps_bind {a : Action α} (ha : Keeps a) (hf : ∀ x, Keeps (f x)) : Keeps (a >>= f) :=
  moves_bind (R := fun v w => w = v) (fun _ _ _ h h' => h'.trans h) ha hf

theorem keeps_readSource [Host] (path : Path) (encoding : Text) :
    Keeps (readSource path encoding) := by
  unfold readSource readText
  refine keeps_bind (keeps_guard _ _) fun _ => keeps_bind (eq_checkName _).keeps fun _ =>
    keeps_bind (eq_readBytes _).keeps fun content => keeps_bind (eq_codec _).keeps fun codec => ?_
  split
  · exact keeps_pure _
  · exact keeps_throw _

theorem keeps_mapM (h : ∀ x, Keeps (f x)) (xs : List α) : Keeps (xs.mapM f) :=
  moves_mapM (R := fun v w => w = v) (fun _ => rfl) (fun _ _ _ h h' => h'.trans h) fun x _ => h x

theorem keeps_flatMapM {f : α → Action (List β)} (h : ∀ x, Keeps (f x)) (xs : List α) :
    Keeps (xs.flatMapM f) :=
  moves_flatMapM (R := fun v w => w = v) (fun _ => rfl) (fun _ _ _ h h' => h'.trans h) h xs

end

end Action

end Inlay
