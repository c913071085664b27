import Inlay.Proofs.Settings.WellFormed

/-!
# Checks that end in the depth of a value

A value is displayed only if it is not nested too deep (`lt_nesting_of_tooDeep`). A check displays
nothing but a count that it refuses, so it gives up for that reason only if what was given for the
count is nested deeper than anything is displayed (`nesting_of_tooDeep`).
-/

namespace Inlay

open Check

namespace Value

mutual

/-- How deep a value is nested. -/
def nesting : Value → Nat
  | list items => itemsNesting items + 1
  | table entries => entriesNesting entries + 1
  | null | bool _ | int _ | real _ | text _ | bytes _ => 1

def itemsNesting : List Value → Nat
  | [] => 0
  | item :: items => max (nesting item) (itemsNesting items)

def entriesNesting : List (String × Value) → Nat
  | [] => 0
  | (_, value) :: entries => max (nesting value) (entriesNesting entries)

end

mutual

theorem lt_nesting_of_tooDeep {depth : Nat} {value : Value}
    (h : value.displayFault? depth = some .tooDeep) : depth < value.nesting := by
  cases depth with
  | zero => cases value <;> simp [nesting]
  | succ depth =>
    cases value with
    | list items => exact Nat.succ_lt_succ (lt_itemsNesting_of_tooDeep h)
    | table entries => exact Nat.succ_lt_succ (lt_entriesNesting_of_tooDeep h)
    | int n =>
      rw [displayFault?] at h
      split at h <;> simp at h
    | null | bool _ | real _ | text _ | bytes _ => simp [displayFault?] at h

theorem lt_itemsNesting_of_tooDeep {depth : Nat} {items : List Value}
    (h : itemsFault? depth items = some .tooDeep) : depth < itemsNesting items := by
  cases items with
  | nil => simp [itemsFault?] at h
  | cons item items =>
    rw [itemsFault?, Option.or_eq_some_iff] at h
    rw [itemsNesting]
    rcases h with h | ⟨-, h⟩
    · have := lt_nesting_of_tooDeep h
      omega
    · have := lt_itemsNesting_of_tooDeep h
      omega

theorem lt_entriesNesting_of_tooDeep {depth : Nat} {entries : List (String × Value)}
    (h : entriesFault? depth entries = some .tooDeep) : depth < entriesNesting entries := by
  match entries, h with
  | [], h => simp [entriesFault?] at h
  | (key, value) :: entries, h =>
    rw [entriesFault?, Option.or_eq_some_iff] at h
    rw [entriesNesting]
    rcases h with h | ⟨-, h⟩
    · have := lt_nesting_of_tooDeep h
      omega
    · have := lt_entriesNesting_of_tooDeep h
      omega

end

/-- A value in so many lists. -/
def inLists (value : Value) : Nat → Value
  | 0 => value
  | n + 1 => .list [value.inLists n]

theorem displayFault?_inLists (value : Value) (depth : Nat) :
    (value.inLists depth).displayFault? depth = some .tooDeep := by
  induction depth with
  | zero => cases value <;> rfl
  | succ depth ih => rw [inLists, displayFault?, itemsFault?, ih, Option.some_or]

end Value

/-! ### Steps that may end so -/

namespace Checking

variable {α β : Type} {p : Prop}

/-- A step that gives up for its depth does so only under a condition. -/
def Ends (step : Checking α) (p : Prop) : Prop :=
  ∀ notes, step.run notes = .error (.undisplayable .tooDeep) → p

theorem ends_pure (x : α) : Ends (pure x) p := by
  intro notes h
  cases h

theorem ends_throw {fault : SettingsFault} (h : fault = .undisplayable .tooDeep → p) :
    Ends (throw fault : Checking α) p := by
  intro notes hr
  exact h (Except.error.inj hr)

theorem ends_lift {step : Except SettingsFault α} (h : step ≠ .error (.undisplayable .tooDeep)) :
    Ends (liftM step : Checking α) p := by
  cases step with
  | ok x => exact ends_pure x
  | error fault => exact ends_throw fun heq => absurd (congrArg Except.error heq) h

theorem ends_bind {step : Checking α} {next : α → Checking β} {P : α → Prop} (h : Ends step p)
    (hg : Gives step P) (hn : ∀ x, P x → Ends (next x) p) : Ends (step >>= next) p := by
  intro notes hr
  rw [StateT.run_bind] at hr
  cases hs : step.run notes with
  | error fault =>
    rw [hs] at hr
    obtain rfl : fault = .undisplayable .tooDeep := Except.error.inj hr
    exact h notes hs
  | ok r =>
    rw [hs] at hr
    exact hn r.1 (hg notes r.1 r.2 hs) r.2 hr

theorem ends_next {step : Checking α} {next : α → Checking β} (h : Ends step p)
    (hn : ∀ x, Ends (next x) p) : Ends (step >>= next) p :=
  ends_bind h (gives_any step) fun x _ => hn x

theorem ends_map {step : Checking α} (h : Ends step p) (f : α → β) : Ends (f <$> step) p := by
  rw [map_eq_pure_bind]
  exact ends_next h fun x => ends_pure (f x)

theorem ends_wrong (mode : CheckMode) (finding : Finding) (x : α) :
    Ends (do wrong mode finding; pure x) p := by
  cases mode with
  | lenient => exact ends_next (fun _ h => by cases h) fun _ => ends_pure x
  | strict => exact ends_next (ends_throw (by simp)) fun _ => ends_pure x

end Checking

open Checking

namespace Check

theorem asText_ends (mode : CheckMode) (key : String) (value : Value) :
    Ends (asText mode key value) p := by
  cases value with
  | null => exact ends_pure _
  | text t => exact ends_pure _
  | _ => exact ends_wrong _ _ _

theorem asFlag_ends (mode : CheckMode) (key : String) (value : Value) :
    Ends (asFlag mode key value) p := by
  unfold asFlag
  split
  · exact ends_pure _
  · exact ends_pure _
  · split
    · exact ends_next (fun _ h => by cases h) fun _ => ends_pure _
    · exact ends_wrong _ _ _

theorem asExtension_ends (mode : CheckMode) (key : String) (value : Value) :
    Ends (asExtension mode key value) p := by
  refine ends_next (asText_ends mode key value) fun extension => ?_
  split
  · exact ends_pure _
  · exact ends_wrong _ _ _

theorem asPolicy_ends (mode : CheckMode) (name : Text) : Ends (asPolicy mode name) p := by
  simp only [asPolicy]
  split
  · exact ends_pure _
  · exact ends_wrong _ _ _

theorem separate_ends (mode : CheckMode) (t : Table) : Ends (separate mode t) p := by
  unfold separate
  split
  · exact ends_wrong _ _ _
  · exact ends_pure t

theorem countOfDigits_ne (digits : Text) :
    countOfDigits digits ≠ .error (.undisplayable .tooDeep) := by
  simp only [countOfDigits]
  split
  · simp
  · split <;> simp

theorem readAll_ends {read : String → Value → Checking Value}
    (h : ∀ key value, Ends (read key value) p) (keys : List String) (t : Table) :
    Ends (readAll read keys t) p := by
  unfold readAll
  induction keys generalizing t with
  | nil => exact ends_pure t
  | cons key keys ih =>
    rw [List.foldlM_cons]
    exact ends_next (ends_next (h key _) fun value => ends_pure _) ih

variable [Host]

theorem asEncoding_ends (mode : CheckMode) (name : Text) : Ends (asEncoding mode name) p := by
  unfold asEncoding
  split
  · exact ends_throw (by simp)
  · split
    · exact ends_throw (by simp)
    · split
      · exact ends_pure _
      · exact ends_wrong _ _ _

theorem asCount_ends (mode : CheckMode) (key : String) (value : Value) :
    Ends (asCount mode key value) (Host.displayDepth < value.nesting) := by
  have refuse : Ends (refuseCount mode key value) (Host.displayDepth < value.nesting) := by
    unfold refuseCount
    split
    · next fault hf =>
      refine ends_throw fun heq => ?_
      obtain rfl := SettingsFault.undisplayable.inj heq
      exact Value.lt_nesting_of_tooDeep hf
    · exact ends_wrong _ _ _
  unfold asCount
  split
  · exact ends_pure _
  · split
    · exact ends_pure _
    · exact refuse
  · split
    · refine ends_next (fun _ h => by cases h) fun _ =>
        ends_next (ends_lift (countOfDigits_ne _)) fun _ => ends_pure _
    · exact refuse
  · exact refuse

omit [Host] in
theorem readAll_ends_singleton {read : String → Value → Checking Value} {key : String}
    {t : Table} (h : Ends (read key (field t key)) p) : Ends (readAll read [key] t) p := by
  unfold readAll
  rw [List.foldlM_cons]
  exact ends_next (ends_next h fun value => ends_pure _) fun t' => ends_pure t'

/-- The steps before the count leave what was given for it as it is. -/
theorem table_ends (mode : CheckMode) (given : Table) : Ends (Check.table mode given)
    (Host.displayDepth <
      (field (Setting.defaults.update given) Setting.statRetries).nesting) := by
  unfold Check.table
  refine ends_bind (readAll_ends (fun key value => ends_map (asText_ends mode key value) _) _ _)
    (readAll_gives (by decide) (P := fun _ _ => True) (fun _ _ _ => gives_any _)
      (Setting.mem_keys_of_known (by decide) rfl)) fun t₁ h₁ => ?_
  refine ends_bind (readAll_ends (fun key value => ends_map (asFlag_ends mode key value) _) _ _)
    (readAll_gives (by decide) (P := fun _ _ => True) (fun _ _ _ => gives_any _)
      (Setting.mem_keys_of_known (by decide) h₁.same)) fun t₂ h₂ => ?_
  have hcount : field t₂ Setting.statRetries =
      field (Setting.defaults.update given) Setting.statRetries := by
    rw [field, h₂.kept _ (by decide), h₁.kept _ (by decide), field]
  refine ends_next (readAll_ends_singleton (ends_map (hcount ▸ asCount_ends mode _ _) _))
    fun t₃ => ?_
  refine ends_next (readAll_ends (fun key value => ends_map (asExtension_ends mode key value) _)
    _ _) fun t₄ => ?_
  exact ends_next (separate_ends mode t₄) fun t₅ => ends_next (asEncoding_ends mode _)
    fun encoding => ends_next (asPolicy_ends mode _) fun policy => ends_pure _

end Check

/-- A check gives up for the depth of a value only if a count is nested that deep. -/
theorem nesting_of_tooDeep [Host] {mode : CheckMode} {given : Value}
    (h : checkSettings mode given = .error (.undisplayable .tooDeep)) :
    ∃ entries : Table, given = .table entries ∧ Host.displayDepth <
      (field (Setting.defaults.update entries) Setting.statRetries).nesting := by
  unfold checkSettings at h
  split at h
  · next entries => exact ⟨entries, rfl, Check.table_ends mode entries [] h⟩
  · exact absurd h (ends_wrong (p := False) mode _ Setting.defaults [])

end Inlay
