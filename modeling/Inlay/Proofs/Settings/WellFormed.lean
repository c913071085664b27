import Inlay.Proofs.Number.Decimals
import Inlay.Proofs.Settings.Tables
import Inlay.Proofs.Workspace.Run
import Inlay.Settings.Check

/-!
# Well-formed settings

Whatever a check accepts, in either mode and from any value, has a legal value under each of the
known keys, and under the others what was given (`Setting.Accepts`). A step of a check is described
by what it gives when it does not give up (`Checking.Gives`).
-/

namespace Inlay

open Check

/-! ### What a step of a check gives -/

namespace Checking

variable {α β : Type}

def Gives (step : Checking α) (P : α → Prop) : Prop :=
  ∀ notes x notes', step.run notes = .ok (x, notes') → P x

theorem gives_pure {P : α → Prop} {x : α} (h : P x) : Gives (pure x) P := by
  intro notes y notes' hr
  have he : (x, notes) = (y, notes') := Except.ok.inj hr
  have hx : x = y := congrArg Prod.fst he
  rwa [← hx]

theorem gives_throw {P : α → Prop} (f : SettingsFault) : Gives (throw f) P := by
  intro notes y notes' hr
  simp [throw, throwThe, MonadExceptOf.throw, StateT.run, StateT.lift, bind, Except.bind] at hr

theorem gives_bind {step : Checking α} {next : α → Checking β} {P : α → Prop} {Q : β → Prop}
    (h : Gives step P) (hn : ∀ x, P x → Gives (next x) Q) : Gives (step >>= next) Q := by
  intro notes y notes' hr
  rw [StateT.run_bind] at hr
  cases hs : step.run notes with
  | error f => simp [hs, bind, Except.bind] at hr
  | ok r =>
    rw [hs] at hr
    exact hn r.1 (h notes r.1 r.2 hs) r.2 y notes' hr

theorem gives_any (step : Checking α) : Gives step fun _ => True :=
  fun _ _ _ _ => trivial

theorem gives_next {step : Checking α} {next : α → Checking β} {Q : β → Prop}
    (h : ∀ x, Gives (next x) Q) : Gives (step >>= next) Q :=
  gives_bind (gives_any step) fun x _ => h x

theorem gives_map {step : Checking α} {f : α → β} {P : α → Prop} {Q : β → Prop}
    (h : Gives step P) (hf : ∀ x, P x → Q (f x)) : Gives (f <$> step) Q := by
  rw [map_eq_pure_bind]
  exact gives_bind h fun x hx => gives_pure (hf x hx)

theorem gives_lift {step : Except SettingsFault α} {P : α → Prop}
    (h : ∀ x, step = .ok x → P x) : Gives (liftM step : Checking α) P := by
  intro notes y notes' hr
  cases hs : step with
  | error f =>
    rw [hs] at hr
    simp [liftM, monadLift, MonadLift.monadLift, StateT.run, StateT.lift, bind, Except.bind] at hr
  | ok x =>
    rw [hs] at hr
    have he : (x, notes) = (y, notes') := Except.ok.inj hr
    rw [← (Prod.mk.inj he).1]
    exact h x hs

end Checking

open Checking

/-! ### Texts without blanks at their ends -/

/-- Neither empty nor with a blank at an end. -/
structure Text.Trimmed (t : Text) : Prop where
  ne_nil : t ≠ []
  head : ∀ c ∈ t.head?, isBlank c = false
  last : ∀ c ∈ t.getLast?, isBlank c = false

theorem Text.trimmed_iff {t : Text} :
    t ≠ [] ∧ t.head?.all (!isBlank ·) = true ∧ t.getLast?.all (!isBlank ·) = true ↔
      t.Trimmed := by
  have hall (o : Option Char) : o.all (!isBlank ·) = true ↔ ∀ c ∈ o, isBlank c = false := by
    cases o with
    | none => simp
    | some c => simp
  rw [hall, hall]
  exact ⟨fun ⟨hne, hhead, hlast⟩ => ⟨hne, hhead, hlast⟩, fun h => ⟨h.ne_nil, h.head, h.last⟩⟩

instance (t : Text) : Decidable t.Trimmed := decidable_of_iff _ Text.trimmed_iff

theorem Text.trimmed_strip {t : Text} (h : Text.strip t ≠ []) : (Text.strip t).Trimmed :=
  ⟨h, fun c hc => Text.head_strip t c hc, fun c hc => Text.last_strip t c hc⟩

/-- A point in front of a text that starts without one. -/
theorem Text.Trimmed.cons_point {t : Text} (h : t.Trimmed) : Text.Trimmed ('.' :: t) := by
  refine ⟨by simp, by simp; decide, fun c hc => h.last c ?_⟩
  obtain ⟨d, rest, rfl⟩ := List.exists_cons_of_ne_nil h.ne_nil
  simpa using hc

theorem Text.trimmed_name (policy : StatPolicy) : Text.Trimmed policy.name.toList := by
  cases policy <;> decide

/-! ### Names of encodings -/

theorem Encoding.isName_default [Host] : Encoding.IsName Setting.defaultEncoding where
  encodable := surrogateFault?_eq_none_iff.2 fun c hc => by
    have hall : ∀ c ∈ Setting.defaultEncoding, c.toNat < 0xe000 := by
      simp [Setting.defaultEncoding]
    exact Alphabet.isSurrogate_of_toNat_lt (hall c hc)
  zeroFree := by decide
  known := by
    have hfind : Encoding.find? Setting.defaultEncoding = some (.text .utf8) := Host.utf8
    rw [hfind]
    rfl

namespace Check

/-! ### Single settings -/

theorem asText_gives (mode : CheckMode) {key : String}
    (hkey : (Setting.defaultText key).Trimmed) (value : Value) :
    Gives (asText mode key value) Text.Trimmed := by
  unfold asText
  cases value with
  | null => exact gives_pure hkey
  | text t =>
    apply gives_pure
    split
    · exact hkey
    · next ht => exact Text.trimmed_strip (by simpa using ht)
  | bool b => exact gives_next fun _ => gives_pure hkey
  | int n => exact gives_next fun _ => gives_pure hkey
  | real x => exact gives_next fun _ => gives_pure hkey
  | bytes b => exact gives_next fun _ => gives_pure hkey
  | list items => exact gives_next fun _ => gives_pure hkey
  | table entries => exact gives_next fun _ => gives_pure hkey

theorem asExtension_gives (mode : CheckMode) {key : String}
    (hkey : (Setting.defaultText key).Trimmed) (value : Value) :
    Gives (asExtension mode key value) fun t => t.Trimmed ∧ t.head? = some '.' := by
  unfold asExtension
  refine gives_bind (asText_gives mode hkey value) fun t ht => ?_
  split
  · next h => exact gives_pure ⟨ht, h⟩
  · exact gives_next fun _ => gives_pure ⟨ht.cons_point, rfl⟩

theorem countOfDigits_lt {digits : Text} {n : Nat} (h : countOfDigits digits = .ok n) :
    n < digitBound := by
  simp only [countOfDigits] at h
  split at h
  · simp at h
  · next hlimit =>
    split at h
    · simp at h
    · next hrun =>
      obtain rfl := Except.ok.inj h
      have hlen : digits.length ≤ digitLimit := by omega
      refine foldl_digits_lt_bound (fun c _ => ?_) hlen
      cases hd : decimalValue? c with
      | none => simp
      | some d => exact decimalValue?_le c d hd

theorem displayFault?_text [Host] (t : Text) :
    (Value.text t).displayFault? Host.displayDepth = none := by
  obtain ⟨depth, hdepth⟩ := Nat.exists_eq_succ_of_ne_zero (Nat.ne_of_gt Host.displays)
  rw [hdepth, Value.displayFault?]

/-- A count is a count that was given, or it is not too long to be read from a text. -/
theorem asCount_gives [Host] (mode : CheckMode) (key : String) (value : Value) :
    Gives (asCount mode key value) fun n =>
      0 ≤ n ∧ ((∃ m, value = .int m ∧ n = m) ∨ n < digitBound) := by
  have hd : (0 : Int) ≤ Setting.defaultRetries := by decide
  have hdefault : Setting.defaultRetries < digitBound := Int.ofNat_lt.2 two_lt_digitBound
  have refuse (given : Value) : Gives (refuseCount mode key given) fun n =>
      0 ≤ n ∧ ((∃ m, value = .int m ∧ n = m) ∨ n < digitBound) := by
    unfold refuseCount
    split
    · exact gives_throw _
    · exact gives_next fun _ => gives_pure ⟨hd, Or.inr hdefault⟩
  unfold asCount
  cases value with
  | null => exact gives_pure ⟨hd, Or.inr hdefault⟩
  | int n =>
    simp only
    split
    · next h => exact gives_pure ⟨h, Or.inl ⟨n, rfl, rfl⟩⟩
    · exact refuse _
  | text t =>
    simp only
    split
    · refine gives_next fun _ => gives_bind (gives_lift fun n hn => countOfDigits_lt hn)
        fun n hn => gives_pure ⟨Int.natCast_nonneg n, Or.inr (Int.ofNat_lt.2 hn)⟩
    · exact refuse _
  | bool b => exact refuse _
  | real x => exact refuse _
  | bytes b => exact refuse _
  | list items => exact refuse _
  | table entries => exact refuse _

theorem asEncoding_gives [Host] (mode : CheckMode) {name : Text} (hname : name.Trimmed) :
    Gives (asEncoding mode name) fun t => t.Trimmed ∧ Encoding.IsName t := by
  unfold asEncoding
  split
  · exact gives_throw _
  · next he =>
    split
    · exact gives_throw _
    · next hz =>
      split
      · next hf => exact gives_pure ⟨hname, he, by simpa using hz, hf⟩
      · exact gives_next fun _ => gives_pure ⟨by decide, Encoding.isName_default⟩

theorem eq_name_of_ofName? {name : Text} {policy : StatPolicy}
    (h : StatPolicy.ofName? name = some policy) : name = policy.name.toList := by
  have hp := List.find?_some h
  exact (eq_of_beq hp).symm

theorem asPolicy_gives (mode : CheckMode) (name : Text) :
    Gives (asPolicy mode name) fun t => ∃ policy : StatPolicy, t = policy.name.toList := by
  simp only [asPolicy]
  split
  · next h =>
    obtain ⟨policy, hp⟩ := Option.isSome_iff_exists.1 h
    exact gives_pure ⟨policy, eq_name_of_ofName? hp⟩
  · exact gives_next fun _ => gives_pure ⟨.skip, rfl⟩

/-! ### Tables -/

/-- Each of the keys has a value that was read from the table before, and the other keys stay. -/
structure Reads (keys : List String) (P : Value → Value → Prop) (table t : Table) : Prop where
  same : t.keys = table.keys
  read : ∀ key ∈ keys, ∃ value, t.get? key = some value ∧ P (field table key) value
  kept : ∀ key, key ∉ keys → t.get? key = table.get? key

theorem readAll_gives {read : String → Value → Checking Value} {keys : List String}
    (hnodup : keys.Nodup) {P : Value → Value → Prop}
    (h : ∀ key ∈ keys, ∀ given, Gives (read key given) (P given)) {table : Table}
    (hkeys : ∀ key ∈ keys, key ∈ table.keys) :
    Gives (readAll read keys table) (Reads keys P table) := by
  unfold readAll
  induction keys generalizing table with
  | nil => exact gives_pure ⟨rfl, by simp, fun _ _ => rfl⟩
  | cons k keys ih =>
    rw [List.foldlM_cons]
    obtain ⟨hk, hrest⟩ := List.nodup_cons.1 hnodup
    have hfirst : Gives (do let value ← read k (field table k); pure (table.set k value))
        fun t => ∃ value, P (field table k) value ∧ t = table.set k value :=
      gives_bind (h k (List.mem_cons_self ..) _) fun value hv => gives_pure ⟨value, hv, rfl⟩
    refine gives_bind hfirst fun t ht => ?_
    obtain ⟨value, hv, rfl⟩ := ht
    have hset := Table.keys_set_of_mem (hkeys k (List.mem_cons_self ..)) value
    intro notes t' notes' hr
    have hreads := ih hrest (fun key hm => h key (List.mem_cons_of_mem _ hm))
      (fun key hm => hset ▸ hkeys key (List.mem_cons_of_mem _ hm)) notes t' notes' hr
    refine ⟨hreads.same.trans hset, fun key hm => ?_, fun key hm => ?_⟩
    · rcases List.mem_cons.1 hm with rfl | hm
      · exact ⟨value, by rw [hreads.kept _ hk, Table.get?_set_self], hv⟩
      · have hne : key ≠ k := fun he => hk (he ▸ hm)
        obtain ⟨value', hget, hP⟩ := hreads.read key hm
        exact ⟨value', hget, by rwa [field, Table.get?_set_of_ne hne] at hP⟩
    · simp only [List.mem_cons, not_or] at hm
      rw [hreads.kept _ hm.2, Table.get?_set_of_ne hm.1]

theorem textOf_of_get? {table : Table} {key : String} {t : Text}
    (h : table.get? key = some (.text t)) : textOf table key = t := by
  rw [textOf, h]

/-- Two extensions that can be told apart. -/
def Apart (t : Table) : Prop :=
  ∃ source target : Text, t.get? Setting.sourceExtension = some (.text source) ∧
    t.get? Setting.targetExtension = some (.text target) ∧ source.Trimmed ∧ target.Trimmed ∧
    source.head? = some '.' ∧ target.head? = some '.' ∧ source ≠ target

theorem separate_gives_kept (mode : CheckMode) (table : Table) :
    Gives (separate mode table) fun t => ∀ key, key ≠ Setting.sourceExtension →
      key ≠ Setting.targetExtension → t.get? key = table.get? key := by
  unfold separate
  split
  · refine gives_next fun _ => gives_pure fun key h₁ h₂ => ?_
    rw [Table.get?_set_of_ne h₂, Table.get?_set_of_ne h₁]
  · exact gives_pure fun _ _ _ => rfl

theorem separate_gives {mode : CheckMode} {table : Table} {source target : Text}
    (hs : table.get? Setting.sourceExtension = some (.text source))
    (hsource : source.Trimmed ∧ source.head? = some '.')
    (ht : table.get? Setting.targetExtension = some (.text target))
    (htarget : target.Trimmed ∧ target.head? = some '.') :
    Gives (separate mode table) fun t => t.keys = table.keys ∧ Apart t ∧
      ∀ key, key ≠ Setting.sourceExtension → key ≠ Setting.targetExtension →
        t.get? key = table.get? key := by
  have hapart : Gives (separate mode table) fun t => t.keys = table.keys ∧ Apart t := by
    unfold separate
    rw [textOf_of_get? hs, textOf_of_get? ht]
    split
    · have hkeys : ((table.set Setting.sourceExtension (.text Setting.defaultSource)).set
          Setting.targetExtension (.text Setting.defaultTarget)).keys = table.keys := by
        have hsk := Table.mem_keys_iff.2 ⟨_, hs⟩
        have htk := Table.mem_keys_iff.2 ⟨_, ht⟩
        rw [Table.keys_set_of_mem (Table.mem_keys_set htk), Table.keys_set_of_mem hsk]
      refine gives_next fun _ => gives_pure ⟨hkeys, Setting.defaultSource, Setting.defaultTarget,
        ?_, ?_, by decide, by decide, rfl, rfl, by decide⟩
      · rw [Table.get?_set_of_ne (by decide), Table.get?_set_self]
      · rw [Table.get?_set_self]
    · next hne =>
      exact gives_pure ⟨rfl, source, target, hs, ht, hsource.1, htarget.1, hsource.2, htarget.2,
        hne⟩
  intro notes t notes' hr
  obtain ⟨hkeys, hapart⟩ := hapart notes t notes' hr
  exact ⟨hkeys, hapart, separate_gives_kept mode table notes t notes' hr⟩

end Check

/-! ### The whole check -/

/-- What a check has made of a table before it looks at the encoding and the policy. -/
structure Setting.Sorted (given t : Table) : Prop where
  keys : t.keys = given.keys
  texts : ∀ key ∈ textKeys, ∃ x : Text, t.get? key = some (.text x) ∧ x.Trimmed
  flags : ∀ key ∈ flagKeys, ∃ b, t.get? key = some (.bool b)
  retries : ∃ n, t.get? Setting.statRetries = some (.int n) ∧ 0 ≤ n ∧
    (given.get? Setting.statRetries = some (.int n) ∨ n < digitBound)
  apart : Apart t
  kept : ∀ key, key ∉ Setting.defaults.keys → t.get? key = given.get? key

theorem Setting.sorted_of_steps {given t₁ t₂ t₃ t₄ t₅ : Table}
    (h₁ : Reads textKeys (fun _ v => ∃ x : Text, v = .text x ∧ x.Trimmed) given t₁)
    (h₂ : Reads flagKeys (fun _ v => ∃ b, v = .bool b) t₁ t₂)
    (h₃ : Reads [Setting.statRetries] (fun old v => ∃ n : Int, v = .int n ∧ 0 ≤ n ∧
      ((∃ m, old = .int m ∧ n = m) ∨ n < digitBound)) t₂ t₃)
    (h₄ : t₄.keys = t₃.keys ∧ ∀ key, key ∉ [Setting.sourceExtension, Setting.targetExtension] →
      t₄.get? key = t₃.get? key)
    (h₅ : t₅.keys = t₄.keys ∧ Apart t₅ ∧ ∀ key, key ≠ Setting.sourceExtension →
      key ≠ Setting.targetExtension → t₅.get? key = t₄.get? key) : Setting.Sorted given t₅ := by
  -- A key that a step does not read keeps its value.
  have kept₃ {key : String} (h : key ∉ [Setting.sourceExtension, Setting.targetExtension]) :
      t₅.get? key = t₃.get? key := by
    have hk := h
    simp only [List.mem_cons, List.not_mem_nil, or_false, not_or] at hk
    rw [h₅.2.2 key hk.1 hk.2, h₄.2 key h]
  refine ⟨by rw [h₅.1, h₄.1, h₃.same, h₂.same, h₁.same], fun key hk => ?_, fun key hk => ?_, ?_,
    h₅.2.1, fun key hk => ?_⟩
  · obtain ⟨v, hv, x, rfl, hx⟩ := h₁.read key hk
    have hother : ∀ key ∈ textKeys, key ∉ [Setting.sourceExtension, Setting.targetExtension] ∧
        key ∉ [Setting.statRetries] ∧ key ∉ flagKeys := by decide
    obtain ⟨ho₄, ho₃, ho₂⟩ := hother key hk
    exact ⟨x, by rw [kept₃ ho₄, h₃.kept _ ho₃, h₂.kept _ ho₂, hv], hx⟩
  · obtain ⟨v, hv, b, rfl⟩ := h₂.read key hk
    have hother : ∀ key ∈ flagKeys, key ∉ [Setting.sourceExtension, Setting.targetExtension] ∧
        key ∉ [Setting.statRetries] := by decide
    obtain ⟨ho₄, ho₃⟩ := hother key hk
    exact ⟨b, by rw [kept₃ ho₄, h₃.kept _ ho₃, hv]⟩
  · obtain ⟨v, hv, n, rfl, hn, hold⟩ := h₃.read Setting.statRetries (by simp)
    refine ⟨n, by rw [kept₃ (by decide), hv], hn, hold.imp_left fun ⟨m, hm, hnm⟩ => ?_⟩
    have hgiven : t₂.get? Setting.statRetries = given.get? Setting.statRetries := by
      rw [h₂.kept _ (by decide), h₁.kept _ (by decide)]
    rw [field, hgiven] at hm
    cases hg : given.get? Setting.statRetries with
    | none => simp [hg] at hm
    | some value =>
      rw [hg, Option.getD_some] at hm
      rw [hm, hnm]
  · have hnot (keys : List String) (h : ∀ other ∈ keys, other ∈ Setting.defaults.keys) :
        key ∉ keys := fun hm => hk (h key hm)
    rw [kept₃ (hnot _ (by decide)), h₃.kept _ (hnot _ (by decide)),
      h₂.kept _ (hnot _ (by decide)), h₁.kept _ (hnot _ (by decide))]

theorem Setting.mem_keys_of_known {keys : List String}
    (h : ∀ key ∈ keys, key ∈ Setting.defaults.keys) {given t : Table}
    (ht : t.keys = (Setting.defaults.update given).keys) : ∀ key ∈ keys, key ∈ t.keys :=
  fun key hk => ht ▸ Table.mem_keys_update (h key hk)

section
variable [Host]

/-- A legal value under every known key. -/
structure Setting.WellFormed (t : Table) : Prop where
  texts : ∀ key ∈ textKeys, ∃ x : Text, t.get? key = some (.text x) ∧ x.Trimmed
  flags : ∀ key ∈ flagKeys, ∃ b, t.get? key = some (.bool b)
  retries : ∃ n, t.get? Setting.statRetries = some (.int n) ∧ 0 ≤ n
  apart : Apart t
  encoding : ∃ name, t.get? Setting.encoding = some (.text name) ∧ Encoding.IsName name
  policy : ∃ policy : StatPolicy, t.get? Setting.statPolicy = some (.text policy.name.toList)

/-- What a check makes of a table that has been laid over the defaults. -/
structure Setting.Accepts (given t : Table) : Prop where
  wellFormed : Setting.WellFormed t
  keys : t.keys = given.keys
  kept : ∀ key, key ∉ Setting.defaults.keys → t.get? key = given.get? key
  retries : ∀ n, t.get? Setting.statRetries = some (.int n) →
    given.get? Setting.statRetries = some (.int n) ∨ n < digitBound

theorem Setting.wellFormed_defaults : Setting.WellFormed Setting.defaults where
  texts := by
    have hall : ∀ key ∈ textKeys, Setting.defaults.get? key =
        some (.text (Setting.defaultText key)) ∧ (Setting.defaultText key).Trimmed := by
      simp only [textKeys, List.forall_mem_cons]
      refine ⟨?_, ?_, ?_, ?_, ?_, ?_, ?_, ?_, by simp⟩
      all_goals exact ⟨rfl, by decide⟩
    exact fun key h => ⟨_, hall key h⟩
  flags := by
    simp only [flagKeys, List.forall_mem_cons]
    exact ⟨⟨false, rfl⟩, ⟨false, rfl⟩, by simp⟩
  retries := ⟨Setting.defaultRetries, rfl, by decide⟩
  apart := ⟨Setting.defaultSource, Setting.defaultTarget, rfl, rfl, by decide, by decide, rfl, rfl,
    by decide⟩
  encoding := ⟨Setting.defaultEncoding, rfl, Encoding.isName_default⟩
  policy := ⟨.skip, rfl⟩

/-- The last two steps of a check set a key each. -/
theorem Setting.Sorted.accepts {given t : Table} (h : Setting.Sorted given t)
    (hknown : ∀ key ∈ Setting.defaults.keys, key ∈ given.keys) {e : Text} {policy : StatPolicy}
    (he : e.Trimmed ∧ Encoding.IsName e) :
    Setting.Accepts given ((t.set Setting.encoding (.text e)).set Setting.statPolicy
      (.text policy.name.toList)) := by
  have hset : (t.set Setting.encoding (.text e)).keys = given.keys := by
    rw [Table.keys_set_of_mem (h.keys ▸ hknown _ (by decide)), h.keys]
  have kept {key : String} (hp : key ≠ Setting.statPolicy) (hn : key ≠ Setting.encoding) :
      ((t.set Setting.encoding (.text e)).set Setting.statPolicy (.text policy.name.toList)).get?
        key = t.get? key := by
    rw [Table.get?_set_of_ne hp, Table.get?_set_of_ne hn]
  have hencoding : ((t.set Setting.encoding (.text e)).set Setting.statPolicy
      (.text policy.name.toList)).get? Setting.encoding = some (.text e) := by
    rw [Table.get?_set_of_ne (by decide), Table.get?_set_self]
  obtain ⟨n, hretries, hn, hold⟩ := h.retries
  have hcount : ((t.set Setting.encoding (.text e)).set Setting.statPolicy
      (.text policy.name.toList)).get? Setting.statRetries = some (.int n) := by
    rw [kept (by decide) (by decide), hretries]
  refine ⟨⟨fun key hk => ?_, fun key hk => ?_, ⟨n, hcount, hn⟩, ?_, ⟨e, hencoding, he.2⟩,
    ⟨policy, Table.get?_set_self ..⟩⟩, ?_, fun key hk => ?_, fun m hm => ?_⟩
  · by_cases hp : key = Setting.statPolicy
    · exact ⟨_, by rw [hp, Table.get?_set_self], Text.trimmed_name policy⟩
    · by_cases hc : key = Setting.encoding
      · exact ⟨e, by rw [hc, hencoding], he.1⟩
      · rw [kept hp hc]
        exact h.texts key hk
  · have hother : ∀ key ∈ flagKeys, key ≠ Setting.statPolicy ∧ key ≠ Setting.encoding := by decide
    rw [kept (hother key hk).1 (hother key hk).2]
    exact h.flags key hk
  · obtain ⟨source, target, hs, ht, hrest⟩ := h.apart
    exact ⟨source, target, by rw [kept (by decide) (by decide), hs],
      by rw [kept (by decide) (by decide), ht], hrest⟩
  · rw [Table.keys_set_of_mem (hset ▸ hknown _ (by decide)), hset]
  · have hother : ∀ other ∈ Setting.defaults.keys, key ≠ other :=
      fun other ho heq => hk (heq ▸ ho)
    rw [kept (hother _ (by decide)) (hother _ (by decide)), h.kept key hk]
  · obtain rfl : n = m := by simpa using hcount.symm.trans hm
    exact hold

theorem Check.table_gives (mode : CheckMode) (given : Table) :
    Gives (Check.table mode given) (Setting.Accepts (Setting.defaults.update given)) := by
  have hknown : ∀ key ∈ Setting.defaults.keys, key ∈ (Setting.defaults.update given).keys :=
    fun key h => Table.mem_keys_update h
  have htrimmed : ∀ key ∈ textKeys ++ [Setting.sourceExtension, Setting.targetExtension],
      (Setting.defaultText key).Trimmed := by
    decide
  unfold Check.table
  refine gives_bind (readAll_gives (by decide)
    (P := fun _ v => ∃ x : Text, v = .text x ∧ x.Trimmed) (fun key hk given =>
      gives_map (asText_gives mode (htrimmed key (List.mem_append_left _ hk)) given) fun x hx =>
        ⟨x, rfl, hx⟩) (Setting.mem_keys_of_known (by decide) rfl)) fun t₁ h₁ => ?_
  refine gives_bind (readAll_gives (by decide) (P := fun _ v => ∃ b, v = .bool b)
    (fun key _ given => gives_map (gives_any _) fun b _ => ⟨b, rfl⟩)
    (Setting.mem_keys_of_known (by decide) h₁.same)) fun t₂ h₂ => ?_
  have hkeys₂ := h₂.same.trans h₁.same
  refine gives_bind (readAll_gives (by decide) (P := fun old v => ∃ n : Int, v = .int n ∧ 0 ≤ n ∧
      ((∃ m, old = .int m ∧ n = m) ∨ n < digitBound)) (fun key _ given =>
      gives_map (asCount_gives mode key given) fun n hn => ⟨n, rfl, hn⟩)
    (Setting.mem_keys_of_known (by decide) hkeys₂)) fun t₃ h₃ => ?_
  have hkeys₃ := h₃.same.trans hkeys₂
  refine gives_bind (readAll_gives (by decide)
    (P := fun _ v => ∃ x : Text, v = .text x ∧ x.Trimmed ∧ x.head? = some '.')
    (fun key hk given =>
      gives_map (asExtension_gives mode (htrimmed key (List.mem_append_right _ hk)) given)
        fun x hx => ⟨x, rfl, hx⟩) (Setting.mem_keys_of_known (by decide) hkeys₃)) fun t₄ h₄ => ?_
  obtain ⟨vs, hs, source, rfl, hsource⟩ := h₄.read Setting.sourceExtension (by decide)
  obtain ⟨vt, ht, target, rfl, htarget⟩ := h₄.read Setting.targetExtension (by decide)
  refine gives_bind (separate_gives hs hsource ht htarget) fun t₅ h₅ => ?_
  have hsorted := Setting.sorted_of_steps h₁ h₂ h₃ ⟨h₄.same, h₄.kept⟩ h₅
  have hname : (textOf t₅ Setting.encoding).Trimmed := by
    obtain ⟨x, hget, hx⟩ := hsorted.texts Setting.encoding (by decide)
    rwa [textOf_of_get? hget]
  refine gives_bind (asEncoding_gives mode hname) fun e he => ?_
  refine gives_bind (asPolicy_gives mode _) fun p hp => gives_pure ?_
  obtain ⟨policy, rfl⟩ := hp
  exact hsorted.accepts hknown he

theorem Setting.accepts_of_checkSettings {mode : CheckMode} {entries table : Table}
    {findings : List Finding} (h : checkSettings mode (.table entries) = .ok (table, findings)) :
    Setting.Accepts (Setting.defaults.update entries) table :=
  Check.table_gives mode entries [] table findings h

theorem Setting.wellFormed_of_checkSettings {mode : CheckMode} {given : Value} {table : Table}
    {findings : List Finding} (h : checkSettings mode given = .ok (table, findings)) :
    Setting.WellFormed table := by
  have other (typeName : String) :
      Gives (do wrong mode (.notTable typeName); pure Setting.defaults) Setting.WellFormed :=
    gives_next fun _ => gives_pure Setting.wellFormed_defaults
  unfold checkSettings at h
  split at h
  · exact (Check.table_gives mode _ [] table findings h).wellFormed
  · exact other _ [] table findings h

theorem Setting.WellFormed.value_cases {t : Table} (h : Setting.WellFormed t) {key : String}
    (hk : key ∈ Setting.defaults.keys) :
    (∃ x, t.get? key = some (.text x)) ∨ (∃ b, t.get? key = some (.bool b)) ∨
      (key = Setting.statRetries ∧ ∃ n, t.get? Setting.statRetries = some (.int n) ∧ 0 ≤ n) := by
  have hcases : ∀ key ∈ Setting.defaults.keys, key ∈ textKeys ∨ key ∈ flagKeys ∨
      key = Setting.statRetries ∨ key = Setting.sourceExtension ∨
        key = Setting.targetExtension := by decide
  obtain ⟨source, target, hs, ht, _⟩ := h.apart
  rcases hcases key hk with hk | hk | hk | rfl | rfl
  · obtain ⟨x, hx, _⟩ := h.texts key hk
    exact Or.inl ⟨x, hx⟩
  · exact Or.inr (Or.inl (h.flags key hk))
  · exact Or.inr (Or.inr ⟨hk, h.retries⟩)
  · exact Or.inl ⟨source, hs⟩
  · exact Or.inl ⟨target, ht⟩

theorem Setting.WellFormed.exists_value {t : Table} (h : Setting.WellFormed t) {key : String}
    (hk : key ∈ Setting.defaults.keys) : ∃ value, t.get? key = some value := by
  rcases h.value_cases hk with ⟨x, hx⟩ | ⟨b, hb⟩ | ⟨rfl, n, hn, _⟩
  · exact ⟨_, hx⟩
  · exact ⟨_, hb⟩
  · exact ⟨_, hn⟩

/-- Settings that a check accepts are complete and well-formed, and settings that it does not know
are those that were given. -/
theorem checked_wellFormed {mode : CheckMode} {given : Value} {table : Table}
    {findings : List Finding} (h : checkSettings mode given = .ok (table, findings)) :
    (∀ key ∈ Setting.defaults.keys, ∃ value, table.get? key = some value) ∧
      Setting.WellFormed table ∧
      ∀ entries : Table, given = .table entries → entries.keys.Nodup →
        ∀ key, key ∉ Setting.defaults.keys → table.get? key = entries.get? key := by
  have hw := Setting.wellFormed_of_checkSettings h
  refine ⟨fun key hk => hw.exists_value hk, hw, ?_⟩
  rintro entries rfl hnodup key hkey
  rw [(Setting.accepts_of_checkSettings h).kept key hkey]
  by_cases hm : key ∈ entries.keys
  · rw [Table.get?_update hnodup hm]
  · rw [Table.get?_update_of_not_mem hm, Table.get?_of_not_mem hkey, Table.get?_of_not_mem hm]

end

section
open Standard

/-- An extension without its point, a count in words, and a setting that is not known. -/
theorem checked_wellFormed_of_sloppy :
    ∃ table findings, checkSettings .lenient (.table
        [(Setting.targetExtension, .text " min.tea\n".toList),
          (Setting.statRetries, .text " ٣ ".toList), ("note", .list [.null])]) =
        .ok (table, findings) ∧
      Setting.WellFormed table ∧ table.get? "note" = some (.list [.null]) := by
  obtain ⟨table, findings, h⟩ : ∃ table findings, checkSettings .lenient (.table
      [(Setting.targetExtension, .text " min.tea\n".toList),
        (Setting.statRetries, .text " ٣ ".toList), ("note", .list [.null])]) =
      .ok (table, findings) := ⟨_, _, rfl⟩
  obtain ⟨_, hw, hkept⟩ := checked_wellFormed h
  exact ⟨table, findings, h, hw, hkept _ rfl (by decide) "note" (by decide)⟩

end

end Inlay
