import Inlay.Failure
import Inlay.Proofs.Settings.Fixed
import Inlay.Proofs.Settings.Nested

/-!
# Strict and lenient checks

A strict check and a lenient one go the same way as long as there is nothing to report. The strict
one then ends at the first finding of the lenient one, with the refusal that belongs to it
(`agrees_checkSettings`). So what passes the strict check is what the lenient one has nothing to
report about (`strict_iff_lenient`). What is refused has a wrong type or is a wrong value, unless it
is nested too deep to be displayed.
-/

namespace Inlay

open Check

/-- What is refused in strict mode where a lenient check notes a finding. In strict mode nothing is
converted: what merely stands for a flag or a count is of the wrong type. -/
def Finding.refusedAs : Finding → Finding
  | flagFromNumber key value => wrongFlag key value.typeName
  | flagFromText key text _ => wrongFlag key (Value.text text).typeName
  | countFromText key text => wrongCount key (.text text)
  | finding => finding

/-! ### Steps side by side -/

namespace Checking

variable {α β : Type}

/-- A strict step and its lenient counterpart. Either both give the same and find nothing, or the
strict one gives up; if the lenient one does not, then it finds something, and the first thing that
it finds is what the strict one refuses. -/
def Agrees (strict lenient : Checking α) : Prop :=
  ∀ notes, (∃ x, strict.run notes = .ok (x, notes) ∧ lenient.run notes = .ok (x, notes)) ∨
    ∃ fault, strict.run notes = .error fault ∧
      ∀ x notes', lenient.run notes = .ok (x, notes') →
        ∃ finding more, notes' = notes ++ finding :: more ∧ fault = .refused finding.refusedAs

theorem agrees_pure (x : α) : Agrees (pure x) (pure x) :=
  fun _ => Or.inl ⟨x, rfl, rfl⟩

theorem agrees_throw (fault : SettingsFault) :
    Agrees (throw fault : Checking α) (throw fault) := by
  intro notes
  refine Or.inr ⟨fault, rfl, fun x notes' h => ?_⟩
  cases h

theorem agrees_lift (step : Except SettingsFault α) :
    Agrees (liftM step : Checking α) (liftM step) := by
  cases step with
  | ok x => exact fun _ => Or.inl ⟨x, rfl, rfl⟩
  | error fault => exact agrees_throw fault

/-- What a lenient step that agrees with a strict one has found is added to the findings. -/
theorem Agrees.grows {strict lenient : Checking α} (h : Agrees strict lenient)
    {notes notes' : List Finding} {x : α} (hr : lenient.run notes = .ok (x, notes')) :
    ∃ more, notes' = notes ++ more := by
  rcases h notes with ⟨y, -, hl⟩ | ⟨fault, -, hl⟩
  · obtain ⟨-, rfl⟩ := Prod.mk.inj (Except.ok.inj (hl.symm.trans hr))
    exact ⟨[], (List.append_nil _).symm⟩
  · obtain ⟨finding, more, hnotes, -⟩ := hl x notes' hr
    exact ⟨finding :: more, hnotes⟩

theorem agrees_bind {strict lenient : Checking α} {strictNext lenientNext : α → Checking β}
    (h : Agrees strict lenient) (hn : ∀ x, Agrees (strictNext x) (lenientNext x)) :
    Agrees (strict >>= strictNext) (lenient >>= lenientNext) := by
  intro notes
  rw [StateT.run_bind, StateT.run_bind]
  rcases h notes with ⟨x, hs, hl⟩ | ⟨fault, hs, hl⟩
  · rw [hs, hl]
    exact hn x notes
  · rw [hs]
    refine Or.inr ⟨fault, rfl, fun y notes' hr => ?_⟩
    cases hrun : lenient.run notes with
    | error f => rw [hrun] at hr; cases hr
    | ok r =>
      obtain ⟨x, found⟩ := r
      rw [hrun] at hr
      obtain ⟨finding, more, rfl, hfault⟩ := hl x found hrun
      -- Whatever comes later, the first finding stays the first.
      obtain ⟨later, rfl⟩ := (hn x).grows hr
      exact ⟨finding, more ++ later, by rw [List.append_assoc, List.cons_append], hfault⟩

theorem agrees_map {strict lenient : Checking α} (h : Agrees strict lenient) (f : α → β) :
    Agrees (f <$> strict) (f <$> lenient) := by
  rw [map_eq_pure_bind, map_eq_pure_bind]
  exact agrees_bind h fun x => agrees_pure (f x)

/-- A finding of the lenient step that a strict one refuses, before the lenient step ends in a way
that no mode plays a part in. -/
theorem agrees_note (finding : Finding) (strict : Checking α) {lenient : Checking α}
    (h : Agrees lenient lenient) :
    Agrees (do wrong .strict finding.refusedAs; strict) (do note finding; lenient) := by
  intro notes
  refine Or.inr ⟨.refused finding.refusedAs, rfl, fun x notes' hr => ?_⟩
  have hrun : lenient.run (notes ++ [finding]) = .ok (x, notes') := hr
  obtain ⟨more, rfl⟩ := h.grows hrun
  exact ⟨finding, more, by rw [List.append_assoc, List.singleton_append], rfl⟩

theorem agrees_wrong {finding : Finding} (h : finding.refusedAs = finding) (x : α) :
    Agrees (do wrong .strict finding; pure x) (do wrong .lenient finding; pure x) := by
  have hnote := agrees_note finding (pure x) (agrees_pure x)
  rwa [h] at hnote

end Checking

open Checking

namespace Check

/-! ### Single settings -/

theorem asText_agrees (key : String) (value : Value) :
    Agrees (asText .strict key value) (asText .lenient key value) := by
  cases value with
  | null => exact agrees_pure _
  | text t => exact agrees_pure _
  | bool b => exact agrees_wrong rfl _
  | int n => exact agrees_wrong rfl _
  | real x => exact agrees_wrong rfl _
  | bytes b => exact agrees_wrong rfl _
  | list items => exact agrees_wrong rfl _
  | table entries => exact agrees_wrong rfl _

/-- What is converted to a flag is refused as what it is. -/
theorem refusedAs_convertFlag? {key : String} {value : Value} {finding : Finding} {flag : Bool}
    (h : convertFlag? key value = some (finding, flag)) :
    finding.refusedAs = .wrongFlag key value.typeName := by
  unfold convertFlag? at h
  split at h
  · obtain ⟨_, -, he⟩ := Option.map_eq_some_iff.1 h
    rw [← (Prod.mk.inj he).1]
    rfl
  · obtain ⟨_, -, he⟩ := Option.map_eq_some_iff.1 h
    rw [← (Prod.mk.inj he).1]
    rfl

theorem asFlag_agrees (key : String) (value : Value) :
    Agrees (asFlag .strict key value) (asFlag .lenient key value) := by
  cases value with
  | null => exact agrees_pure _
  | bool b => exact agrees_pure _
  | _ =>
    simp only [asFlag, reduceCtorEq, if_true, if_false]
    split
    · next finding flag hconvert =>
      rw [← refusedAs_convertFlag? hconvert]
      exact agrees_note finding (pure false) (agrees_pure flag)
    · exact agrees_wrong rfl false

theorem refuseCount_agrees [Host] (key : String) (value : Value) :
    Agrees (refuseCount .strict key value) (refuseCount .lenient key value) := by
  unfold refuseCount
  split
  · exact agrees_throw _
  · exact agrees_wrong rfl _

theorem asCount_agrees [Host] (key : String) (value : Value) :
    Agrees (asCount .strict key value) (asCount .lenient key value) := by
  have refuse := refuseCount_agrees key
  cases value with
  | null => exact agrees_pure _
  | int n =>
    simp only [asCount]
    split
    · exact agrees_pure n
    · exact refuse _
  | text t =>
    by_cases hd : isDigits (Text.strip t) = true
    · simp only [asCount, refuseCount, hd, and_true, if_true, reduceCtorEq, if_false,
        displayFault?_text]
      exact agrees_note (.countFromText key t) _
        (agrees_bind (agrees_lift _) fun n => agrees_pure _)
    · simp only [asCount, hd, and_false, if_false, Bool.false_eq_true]
      exact refuse _
  | bool b => exact refuse (.bool b)
  | real x => exact refuse (.real x)
  | bytes b => exact refuse (.bytes b)
  | list items => exact refuse (.list items)
  | table entries => exact refuse (.table entries)

theorem asExtension_agrees (key : String) (value : Value) :
    Agrees (asExtension .strict key value) (asExtension .lenient key value) := by
  refine agrees_bind (asText_agrees key value) fun extension => ?_
  split
  · exact agrees_pure _
  · exact agrees_wrong rfl _

theorem asEncoding_agrees [Host] (name : Text) :
    Agrees (asEncoding .strict name) (asEncoding .lenient name) := by
  unfold asEncoding
  split
  · exact agrees_throw _
  · split
    · exact agrees_throw _
    · split
      · exact agrees_pure _
      · exact agrees_wrong rfl _

theorem asPolicy_agrees (name : Text) :
    Agrees (asPolicy .strict name) (asPolicy .lenient name) := by
  simp only [asPolicy]
  split
  · exact agrees_pure _
  · exact agrees_wrong rfl _

/-! ### Tables -/

theorem readAll_agrees {strict lenient : String → Value → Checking Value}
    (h : ∀ key value, Agrees (strict key value) (lenient key value)) (keys : List String)
    (t : Table) : Agrees (readAll strict keys t) (readAll lenient keys t) := by
  unfold readAll
  induction keys generalizing t with
  | nil => exact agrees_pure t
  | cons key keys ih =>
    rw [List.foldlM_cons, List.foldlM_cons]
    exact agrees_bind (agrees_bind (h key _) fun value => agrees_pure _) ih

theorem separate_agrees (t : Table) : Agrees (separate .strict t) (separate .lenient t) := by
  unfold separate
  split
  · exact agrees_wrong rfl _
  · exact agrees_pure t

theorem table_agrees [Host] (given : Table) :
    Agrees (Check.table .strict given) (Check.table .lenient given) := by
  unfold Check.table
  refine agrees_bind (readAll_agrees (fun key value => agrees_map (asText_agrees key value) _) _ _)
    fun t₁ => ?_
  refine agrees_bind (readAll_agrees (fun key value => agrees_map (asFlag_agrees key value) _) _ _)
    fun t₂ => ?_
  refine agrees_bind (readAll_agrees (fun key value => agrees_map (asCount_agrees key value) _) _ _)
    fun t₃ => ?_
  refine agrees_bind
    (readAll_agrees (fun key value => agrees_map (asExtension_agrees key value) _) _ _) fun t₄ => ?_
  refine agrees_bind (separate_agrees t₄) fun t₅ => ?_
  refine agrees_bind (asEncoding_agrees _) fun encoding => ?_
  exact agrees_bind (asPolicy_agrees _) fun policy => agrees_pure _

end Check

/-! ### Whole checks -/

theorem SettingsFault.kind_cases (fault : SettingsFault) :
    (Failure.settings fault).kind = "TypeError" ∨ (Failure.settings fault).isValueFault = true ∨
      fault = .undisplayable .tooDeep := by
  cases fault with
  | refused finding =>
    cases finding <;> simp [Failure.isValueFault, Failure.kind, Finding.isTypeFault]
  | undisplayable fault => cases fault <;> simp [Failure.isValueFault, Failure.kind]
  | notDecimal digits => exact Or.inr (Or.inl rfl)
  | hugeCount digits => exact Or.inr (Or.inl rfl)
  | unencodableName fault => exact Or.inr (Or.inl rfl)
  | zeroInName => exact Or.inr (Or.inl rfl)

section
variable [Host]

theorem agrees_checkSettings (given : Value) :
    (∃ t, checkSettings .strict given = .ok (t, []) ∧ checkSettings .lenient given = .ok (t, [])) ∨
      ∃ fault, checkSettings .strict given = .error fault ∧
        ∀ t findings, checkSettings .lenient given = .ok (t, findings) →
          ∃ finding more, findings = finding :: more ∧ fault = .refused finding.refusedAs := by
  unfold checkSettings
  split
  · exact Check.table_agrees _ []
  · exact agrees_wrong rfl Setting.defaults []

/-- The strict check gives exactly those settings that the lenient one gives with nothing to report.
Everything else it refuses as a value of a wrong type or as a wrong value, unless the host cannot
display a count that is nested so deep; and if the lenient check has something to report, then it is
the first thing reported that is refused. -/
theorem strict_iff_lenient (given : Value) :
    (∀ t findings, checkSettings .strict given = .ok (t, findings) ↔
      findings = [] ∧ checkSettings .lenient given = .ok (t, [])) ∧
    ((∃ t, checkSettings .lenient given = .ok (t, [])) ∨
      ∃ fault, checkSettings .strict given = .error fault ∧
        ((Failure.settings fault).kind = "TypeError" ∨
          (Failure.settings fault).isValueFault = true ∨
          fault = .undisplayable .tooDeep ∧
            ∃ entries : Table, given = .table entries ∧ Host.displayDepth <
              (field (Setting.defaults.update entries) Setting.statRetries).nesting)) ∧
    ∀ t finding more, checkSettings .lenient given = .ok (t, finding :: more) →
      checkSettings .strict given = .error (.refused finding.refusedAs) := by
  rcases agrees_checkSettings given with ⟨t, hstrict, hlenient⟩ | ⟨fault, hstrict, hfound⟩
  · refine ⟨fun t' findings => ?_, Or.inl ⟨t, hlenient⟩, fun t' finding more h => ?_⟩
    · rw [hstrict, hlenient]
      simp only [Except.ok.injEq, Prod.mk.injEq, and_true]
      exact ⟨fun ⟨ht, hnil⟩ => ⟨hnil.symm, ht⟩, fun ⟨hnil, ht⟩ => ⟨ht, hnil.symm⟩⟩
    · simp [hlenient] at h
  · refine ⟨fun t' findings => ?_, Or.inr ⟨fault, hstrict, fault.kind_cases.imp_right
      (Or.imp_right fun hdeep => ⟨hdeep, nesting_of_tooDeep (hdeep ▸ hstrict)⟩)⟩,
      fun t' finding more h => ?_⟩
    · rw [hstrict]
      constructor
      · intro h
        cases h
      · rintro ⟨-, h⟩
        obtain ⟨finding, more, hnil, -⟩ := hfound _ _ h
        cases hnil
    · obtain ⟨finding', more', hcons, rfl⟩ := hfound _ _ h
      obtain ⟨rfl, -⟩ := List.cons.inj hcons
      exact hstrict

end

section
open Standard

/-- A flag in words before a count below zero: the strict check refuses the flag. -/
theorem strict_iff_lenient_of_words :
    checkSettings .strict (.table
        [(Setting.statRetries, .int (-1)), (Setting.failFast, .text " Yes".toList)]) =
      .error (.refused (.wrongFlag Setting.failFast "str")) ∧
    ∃ t, checkSettings .lenient (.table
        [(Setting.statRetries, .int (-1)), (Setting.failFast, .text " Yes".toList)]) =
      .ok (t, [.flagFromText Setting.failFast " Yes".toList true,
        .wrongCount Setting.statRetries (.int (-1))]) := by
  obtain ⟨t, h⟩ : ∃ t, checkSettings .lenient (.table
      [(Setting.statRetries, .int (-1)), (Setting.failFast, .text " Yes".toList)]) =
      .ok (t, [.flagFromText Setting.failFast " Yes".toList true,
        .wrongCount Setting.statRetries (.int (-1))]) := ⟨_, rfl⟩
  exact ⟨(strict_iff_lenient _).2.2 t _ _ h, t, h⟩

end

/-! ### A count that cannot be displayed -/

/-- A list for the count that cannot be displayed ends a check in either mode. -/
theorem checkSettings_of_undisplayed [Host] (mode : CheckMode) {items : List Value}
    {fault : Value.DisplayFault}
    (h : (Value.list items).displayFault? Host.displayDepth = some fault) :
    checkSettings mode (.table [(Setting.statRetries, .list items)]) =
      .error (.undisplayable fault) := by
  have hcount : asCount mode Setting.statRetries (.list items) = throw (.undisplayable fault) := by
    simp only [asCount, refuseCount, h]
  let t : Table := Setting.defaults.update [(Setting.statRetries, .list items)]
  have htexts : Leaves (readAll (fun key value => .text <$> asText mode key value) textKeys t) t :=
    fun _ => rfl
  have hflags : Leaves (readAll (fun key value => .bool <$> asFlag mode key value) flagKeys t) t :=
    fun _ => rfl
  have hfield : field t Setting.statRetries = .list items := rfl
  unfold checkSettings Check.table
  refine (run_bind_of_leaves htexts []).trans ((run_bind_of_leaves hflags []).trans ?_)
  rw [readAll, List.foldlM_cons, hfield, hcount]
  rfl

section
open Standard

/-- Lists around lists: the strict check ends neither in a type fault nor in a value fault, and the
lenient one gives nothing. -/
theorem exists_deep_refusal :
    ∃ given, checkSettings .strict given = .error (.undisplayable .tooDeep) ∧
      (Failure.settings (.undisplayable .tooDeep)).kind = "RecursionError" ∧
      ∀ t findings, checkSettings .lenient given ≠ .ok (t, findings) := by
  have hdeep : (Value.list [Value.null.inLists 899]).displayFault? Host.displayDepth =
      some .tooDeep :=
    Value.displayFault?_inLists .null 900
  refine ⟨_, checkSettings_of_undisplayed .strict hdeep, rfl, fun t findings h => ?_⟩
  rw [checkSettings_of_undisplayed .lenient hdeep] at h
  cases h

end

end Inlay
