import Inlay.Proofs.Workspace.Run
import Mathlib.Data.ENat.Basic

/-!
# Pending faults

How often an operation on a path still fails (`failures`), what one operation takes from that
(`planned_cases`), and actions that only look: they leave the volume alone and use up faults of some
operations and paths (`Looks`).
-/

namespace Inlay

/-! ### Faults of one operation on one path -/

def concerning (op : FileOp) (path : Path) (plan : List PlannedFault) : List PlannedFault :=
  plan.filter fun f => f.op == op && f.path == path

def PlannedFault.times (f : PlannedFault) : ℕ∞ :=
  match f.left with
  | some n => n
  | none => ⊤

def failures (op : FileOp) (path : Path) (plan : List PlannedFault) : ℕ∞ :=
  ((concerning op path plan).map PlannedFault.times).sum

theorem concerning_cons_of_applies {op : FileOp} {path : Path} {f : PlannedFault}
    (h : f.applies op path = true) (rest : List PlannedFault) :
    concerning op path (f :: rest) = f :: concerning op path rest := by
  have hc : (f.op == op && f.path == path) = true := (Bool.and_eq_true_iff.1 h).1
  rw [concerning, List.filter_cons, if_pos hc]
  rfl

theorem failures_cons_of_not_applies {op : FileOp} {path : Path} {f : PlannedFault}
    (h : f.applies op path = false) (rest : List PlannedFault) :
    failures op path (f :: rest) = failures op path rest := by
  by_cases hc : (f.op == op && f.path == path) = true
  · -- The fault has worn off.
    have hleft : f.left = some 0 := by simpa [PlannedFault.applies, hc] using h
    have hzero : f.times = 0 := by simp [PlannedFault.times, hleft]
    simp only [failures, concerning, List.filter_cons, if_pos hc, List.map_cons, List.sum_cons,
      hzero, zero_add]
  · simp only [failures, concerning, List.filter_cons, if_neg hc]

theorem times_of_applies {op : FileOp} {path : Path} {f : PlannedFault}
    (h : f.applies op path = true) : f.times = f.hit.times + 1 := by
  have hleft : f.left ≠ some 0 := by
    intro h0
    simp [PlannedFault.applies, h0] at h
  cases hl : f.left with
  | none => simp [PlannedFault.times, PlannedFault.hit, hl]
  | some n =>
    have hn : n ≠ 0 := fun h0 => hleft (by rw [hl, h0])
    obtain ⟨m, rfl⟩ := Nat.exists_eq_succ_of_ne_zero hn
    simp [PlannedFault.times, PlannedFault.hit, hl]

/-- An operation fails by its first fault that is left, and then has one failure less before it. -/
theorem planned_cases (op : FileOp) (path : Path) (plan : List PlannedFault) :
    (planned op path plan = (none, plan) ∧ failures op path plan = 0) ∨
      ∃ e plan', planned op path plan = (some e, plan') ∧
        failures op path plan = failures op path plan' + 1 := by
  induction plan with
  | nil => exact Or.inl ⟨rfl, rfl⟩
  | cons f rest ih =>
    by_cases ha : f.applies op path = true
    · refine Or.inr ⟨f.errno, f.hit :: rest, by simp only [planned, if_pos ha], ?_⟩
      have hhit : concerning op path (f.hit :: rest) = f.hit :: concerning op path rest := by
        have hc : (f.op == op && f.path == path) = true := (Bool.and_eq_true_iff.1 ha).1
        rw [concerning, List.filter_cons, PlannedFault.hit, if_pos hc]
        rfl
      simp only [failures, concerning_cons_of_applies ha, hhit, List.map_cons, List.sum_cons,
        times_of_applies ha]
      ac_rfl
    · have hf := Bool.eq_false_iff.2 ha
      rcases ih with ⟨hp, hz⟩ | ⟨e, plan', hp, hn⟩
      · refine Or.inl ⟨by simp only [planned, if_neg ha, hp], ?_⟩
        rw [failures_cons_of_not_applies hf, hz]
      · refine Or.inr ⟨e, f :: plan', by simp only [planned, if_neg ha, hp], ?_⟩
        rw [failures_cons_of_not_applies hf, failures_cons_of_not_applies hf, hn]

theorem planned_concerning (op : FileOp) (path : Path) (plan : List PlannedFault) :
    (planned op path (concerning op path plan)).1 = (planned op path plan).1 := by
  induction plan with
  | nil => rfl
  | cons f rest ih =>
    by_cases ha : f.applies op path = true
    · rw [concerning_cons_of_applies ha]
      simp only [planned, if_pos ha]
    · by_cases hc : (f.op == op && f.path == path) = true
      · simp only [concerning, List.filter_cons, if_pos hc, planned, if_neg ha]
        exact ih
      · simp only [concerning, List.filter_cons, if_neg hc, planned, if_neg ha]
        exact ih

theorem planned_congr {op : FileOp} {path : Path} {plan plan' : List PlannedFault}
    (h : concerning op path plan' = concerning op path plan) :
    (planned op path plan').1 = (planned op path plan).1 := by
  rw [← planned_concerning, h, planned_concerning]

/-! ### Faults that are used up -/

/-- Only faults of some operations and paths are used up. -/
def Spends (keys : FileOp → Path → Prop) (plan plan' : List PlannedFault) : Prop :=
  ∀ op path, ¬ keys op path → concerning op path plan' = concerning op path plan

theorem Spends.refl (keys : FileOp → Path → Prop) (plan : List PlannedFault) :
    Spends keys plan plan := fun _ _ _ => rfl

theorem Spends.trans {keys : FileOp → Path → Prop} {p q r : List PlannedFault}
    (h : Spends keys p q) (h' : Spends keys q r) : Spends keys p r :=
  fun op path hk => (h' op path hk).trans (h op path hk)

theorem Spends.mono {keys keys' : FileOp → Path → Prop} {p q : List PlannedFault}
    (h : Spends keys p q) (hk : ∀ op path, keys op path → keys' op path) : Spends keys' p q :=
  fun op path hn => h op path fun hm => hn (hk op path hm)

theorem spends_planned (op : FileOp) (path : Path) (plan : List PlannedFault) :
    Spends (fun o p => o = op ∧ p = path) plan (planned op path plan).2 := by
  intro op' path' hk
  induction plan with
  | nil => rfl
  | cons f rest ih =>
    by_cases ha : f.applies op path = true
    · simp only [planned, if_pos ha]
      have hkey : f.op = op ∧ f.path = path := by
        simpa [PlannedFault.applies, and_assoc] using (Bool.and_eq_true_iff.1 ha).1
      have hother : (f.op == op' && f.path == path') = false := by
        rw [hkey.1, hkey.2]
        by_contra hb
        simp only [Bool.not_eq_false, Bool.and_eq_true, beq_iff_eq] at hb
        exact hk ⟨hb.1.symm, hb.2.symm⟩
      have hhit : (f.hit.op == op' && f.hit.path == path') = false := hother
      simp only [concerning, List.filter_cons, hother, hhit, Bool.false_eq_true, if_false]
    · simp only [planned, if_neg ha, concerning, List.filter_cons]
      rw [show rest.filter (fun f => f.op == op' && f.path == path') = _ from ih.symm]
      rfl

namespace Action

variable {α β : Type} {keys : FileOp → Path → Prop} {s : Workspace}

/-- What an action gives that leaves the volume alone and only uses up some faults. -/
def Looks (keys : FileOp → Path → Prop) (a : Action α) (s : Workspace) (r : Except Failure α) :
    Prop :=
  ∃ t, a.runOn s = (r, t) ∧ t.volume = s.volume ∧ Spends keys s.faults t.faults

theorem looks_pure (x : α) : Looks keys (pure x) s (.ok x) := ⟨s, rfl, rfl, Spends.refl _ _⟩

theorem looks_throw (f : Failure) : Looks keys (throw f : Action α) s (.error f) :=
  ⟨s, rfl, rfl, Spends.refl _ _⟩

theorem looks_get : Looks keys (get : Action Workspace) s (.ok s) := ⟨s, rfl, rfl, Spends.refl _ _⟩

theorem looks_log (level : Int) (logger message : String) :
    Looks keys (log level logger message) s (.ok ()) :=
  ⟨s.logged ⟨level, logger, message⟩, rfl, s.logged_volume _, by
    rw [s.logged_faults]
    exact Spends.refl _ _⟩

theorem Looks.mono {keys' : FileOp → Path → Prop} {a : Action α} {r : Except Failure α}
    (h : Looks keys a s r) (hk : ∀ op path, keys op path → keys' op path) : Looks keys' a s r := by
  obtain ⟨t, hr, hv, hf⟩ := h
  exact ⟨t, hr, hv, hf.mono hk⟩

theorem Looks.attempt {a : Action α} {r : Except Failure α} (h : Looks keys a s r) :
    Looks keys (attempt a) s (.ok r) := by
  obtain ⟨t, hr, hv, hf⟩ := h
  exact ⟨t, by rw [runOn_attempt, hr], hv, hf⟩

/-- What the first action leaves pending is what the next one meets. -/
theorem Looks.bind {keys' : FileOp → Path → Prop} {a : Action α} {f : α → Action β} {x : α}
    {r : Except Failure β} (h : Looks keys' a s (.ok x))
    (hk : ∀ op path, keys' op path → keys op path)
    (hn : ∀ t : Workspace, t.volume = s.volume → Spends keys' s.faults t.faults →
      Looks keys (f x) t r) : Looks keys (a >>= f) s r := by
  obtain ⟨t, hr, hv, hf⟩ := h
  obtain ⟨u, hu, huv, huf⟩ := hn t hv hf
  exact ⟨u, (runOn_bind_of_ok hr).trans hu, huv.trans hv, (hf.mono hk).trans huf⟩

theorem Looks.bind_error {a : Action α} {f : α → Action β} {e : Failure}
    (h : Looks keys a s (.error e)) : Looks keys (a >>= f) s (.error e) := by
  obtain ⟨t, hr, hv, hf⟩ := h
  exact ⟨t, runOn_bind_of_error hr, hv, hf⟩

theorem looks_guard (op : FileOp) (path : Path) :
    Looks (fun o p => o = op ∧ p = path) (guard op path) s
      (match (planned op path s.faults).1 with
        | some e => .error (.os (.of e path))
        | none => .ok ()) :=
  ⟨_, runOn_guard op path s, rfl, spends_planned op path s.faults⟩

/-! ### What any run uses up -/

/-- However the action ends, it has only used up faults of some operations and paths. -/
def SpendsOnly (keys : FileOp → Path → Prop) (a : Action α) : Prop :=
  ∀ s, Spends keys s.faults (a.runOn s).2.faults

theorem SpendsOnly.of_runOn {a : Action α} (h : SpendsOnly keys a) {t : Workspace}
    {r : Except Failure α} (hr : a.runOn s = (r, t)) : Spends keys s.faults t.faults :=
  Steps.of_runOn (R := fun s t => Spends keys s.faults t.faults) h hr

theorem spendsOnly_of_looks {a : Action α} (h : ∀ s, ∃ r, Looks keys a s r) :
    SpendsOnly keys a := by
  intro s
  obtain ⟨r, t, hr, _, hf⟩ := h s
  rwa [hr]

theorem SpendsOnly.mono {keys' : FileOp → Path → Prop} {a : Action α} (h : SpendsOnly keys a)
    (hk : ∀ op path, keys op path → keys' op path) : SpendsOnly keys' a := fun s => (h s).mono hk

theorem spendsOnly_pure (x : α) : SpendsOnly keys (pure x) := fun _ => Spends.refl _ _

theorem spendsOnly_bind {a : Action α} {f : α → Action β} (ha : SpendsOnly keys a)
    (hf : ∀ x, SpendsOnly keys (f x)) : SpendsOnly keys (a >>= f) :=
  steps_bind (R := fun s t => Spends keys s.faults t.faults) (fun _ _ _ => Spends.trans) ha hf

theorem spendsOnly_mapM {f : α → Action β} (h : ∀ x, SpendsOnly keys (f x)) (xs : List α) :
    SpendsOnly keys (xs.mapM f) :=
  steps_mapM (R := fun s t => Spends keys s.faults t.faults) (fun _ => Spends.refl _ _)
    (fun _ _ _ => Spends.trans) fun x _ => h x

theorem spendsOnly_flatMapM {f : α → Action (List β)} (h : ∀ x, SpendsOnly keys (f x))
    (xs : List α) : SpendsOnly keys (xs.flatMapM f) :=
  steps_flatMapM (R := fun s t => Spends keys s.faults t.faults) (fun _ => Spends.refl _ _)
    (fun _ _ _ => Spends.trans) h xs

end Action

end Inlay
