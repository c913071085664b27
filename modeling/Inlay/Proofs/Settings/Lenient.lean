import Inlay.Proofs.Settings.WellFormed
import Inlay.Proofs.Text.Pieces

/-!
# When a lenient check gives settings

A lenient check replaces what is wrong, with two exceptions: a count that cannot be read or whose
refusal cannot be displayed, and a zero character or a surrogate in the name of an encoding. It
gives settings exactly if neither is there (`lenient_check_iff`).
-/

namespace Inlay

open Check

/-! ### When a step gives something -/

namespace Checking

variable {α β : Type}

/-- From any findings, a step gives something exactly under a condition. -/
def GivesIff (step : Checking α) (condition : Prop) : Prop :=
  ∀ notes, (∃ x notes', step.run notes = .ok (x, notes')) ↔ condition

theorem givesIff_pure (x : α) : GivesIff (pure x) True :=
  fun notes => iff_of_true ⟨x, notes, rfl⟩ trivial

theorem givesIff_throw (fault : SettingsFault) : GivesIff (throw fault : Checking α) False := by
  intro notes
  refine iff_of_false ?_ id
  rintro ⟨x, notes', h⟩
  cases h

theorem givesIff_lift {step : Except SettingsFault α} {p : Prop} (h : (∃ x, step = .ok x) ↔ p) :
    GivesIff (liftM step : Checking α) p := by
  rw [← h]
  cases step with
  | ok x => exact fun notes => iff_of_true ⟨x, notes, rfl⟩ ⟨x, rfl⟩
  | error fault =>
    intro notes
    refine ((givesIff_throw fault notes).trans ?_)
    simp

theorem givesIff_bind {step : Checking α} {next : α → Checking β} {P : α → Prop} {p q : Prop}
    (h : GivesIff step p) (hg : Gives step P) (hn : ∀ x, P x → GivesIff (next x) q) :
    GivesIff (step >>= next) (p ∧ q) := by
  intro notes
  rw [← h notes, StateT.run_bind]
  cases hr : step.run notes with
  | error fault =>
    refine iff_of_false ?_ ?_
    · rintro ⟨x, notes', hx⟩
      cases hx
    · rintro ⟨⟨x, notes', hx⟩, -⟩
      cases hx
  | ok r =>
    refine (hn r.1 (hg notes r.1 r.2 hr) r.2).trans ?_
    exact ⟨fun hq => ⟨⟨r.1, r.2, rfl⟩, hq⟩, fun h => h.2⟩

/-- Before a step that always gives something. -/
theorem givesIff_next {step : Checking α} {next : α → Checking β} {P : α → Prop} {q : Prop}
    (h : GivesIff step True) (hg : Gives step P) (hn : ∀ x, P x → GivesIff (next x) q) :
    GivesIff (step >>= next) q := by
  have hboth := givesIff_bind h hg hn
  rwa [true_and] at hboth

theorem givesIff_after {step : Checking α} {next : α → Checking β} {p : Prop}
    (h : GivesIff step p) (hn : ∀ x, GivesIff (next x) True) : GivesIff (step >>= next) p := by
  have hboth := givesIff_bind h (gives_any step) fun x _ => hn x
  rwa [and_true] at hboth

theorem givesIff_map {step : Checking α} {p : Prop} (h : GivesIff step p) (f : α → β) :
    GivesIff (f <$> step) p := by
  rw [map_eq_pure_bind]
  exact givesIff_after h fun x => givesIff_pure (f x)

theorem givesIff_wrong (finding : Finding) (x : α) :
    GivesIff (do wrong .lenient finding; pure x) True :=
  fun notes => iff_of_true ⟨x, notes ++ [finding], rfl⟩ trivial

end Checking

open Checking

namespace Check

/-! ### Single settings -/

theorem asText_givesIff (key : String) (value : Value) :
    GivesIff (asText .lenient key value) True := by
  cases value with
  | null => exact givesIff_pure _
  | text t => exact givesIff_pure _
  | bool b => exact givesIff_wrong _ _
  | int n => exact givesIff_wrong _ _
  | real x => exact givesIff_wrong _ _
  | bytes b => exact givesIff_wrong _ _
  | list items => exact givesIff_wrong _ _
  | table entries => exact givesIff_wrong _ _

theorem asFlag_givesIff (key : String) (value : Value) :
    GivesIff (asFlag .lenient key value) True := by
  unfold asFlag
  split
  · exact givesIff_pure _
  · exact givesIff_pure _
  · split
    · exact givesIff_wrong _ _
    · exact givesIff_wrong _ _

theorem exists_countOfDigits_iff (digits : Text) :
    (∃ n, countOfDigits digits = .ok n) ↔
      (∀ c ∈ digits, isDecimal c = true) ∧ digits.length ≤ digitLimit := by
  have hrun : digits.takeWhile isDecimal <+: digits := List.takeWhile_prefix _
  simp only [countOfDigits]
  split
  · next hlimit =>
    have hlong : ¬ digits.length ≤ digitLimit := by
      have := hrun.length_le
      omega
    simp [hlong]
  · next hlimit =>
    split
    · next hshort =>
      have hnot : ¬ ∀ c ∈ digits, isDecimal c = true := fun hall => by
        rw [List.takeWhile_eq_self_iff.2 hall] at hshort
        omega
      simp [hnot]
    · next hall =>
      have heq : digits.takeWhile isDecimal = digits :=
        hrun.eq_of_length (by have := hrun.length_le; omega)
      rw [heq] at hlimit
      exact iff_of_true ⟨_, rfl⟩ ⟨List.takeWhile_eq_self_iff.1 heq, by omega⟩

section
variable [Host]

def Displays (value : Value) : Prop :=
  value.displayFault? Host.displayDepth = none

/-- A value that a count can be made of, if only by refusing it. Digits have to be decimal ones and
not too many; what is refused has to be displayed. -/
def YieldsCount : Value → Prop
  | .null => True
  | .int n => 0 ≤ n ∨ Displays (.int n)
  | .text t => isDigits (Text.strip t) = true →
      (∀ c ∈ Text.strip t, isDecimal c = true) ∧ (Text.strip t).length ≤ digitLimit
  | value => Displays value

theorem asCount_givesIff (key : String) (value : Value) :
    GivesIff (asCount .lenient key value) (YieldsCount value) := by
  have refuse (value : Value) : GivesIff (refuseCount .lenient key value) (Displays value) := by
    unfold refuseCount Displays
    cases value.displayFault? Host.displayDepth with
    | some fault => simpa using givesIff_throw _
    | none => simpa using givesIff_wrong _ _
  cases value with
  | null => exact givesIff_pure _
  | int n =>
    by_cases hn : 0 ≤ n
    · simpa [asCount, YieldsCount, hn] using givesIff_pure n
    · simp only [asCount, YieldsCount, hn, false_or]
      exact refuse (.int n)
  | text t =>
    by_cases hd : isDigits (Text.strip t) = true
    · simp only [asCount, YieldsCount, hd, and_true, if_true, forall_const]
      exact givesIff_next (givesIff_wrong (.countFromText key t) ()) (gives_any _) fun _ _ =>
        givesIff_after (givesIff_lift (exists_countOfDigits_iff _)) fun n => givesIff_pure _
    · have htext := refuse (.text t)
      rw [eq_true (show Displays (.text t) from displayFault?_text t)] at htext
      simp only [asCount, YieldsCount, hd, and_false, if_false, Bool.false_eq_true, false_implies]
      exact htext
  | bool b => exact refuse (.bool b)
  | real x => exact refuse (.real x)
  | bytes b => exact refuse (.bytes b)
  | list items => exact refuse (.list items)
  | table entries => exact refuse (.table entries)

end

theorem asExtension_givesIff (key : String) (value : Value) :
    GivesIff (asExtension .lenient key value) True := by
  refine givesIff_after (asText_givesIff key value) fun extension => ?_
  split
  · exact givesIff_pure _
  · exact givesIff_wrong _ _

/-- A character that no encoding is looked up with in its name. -/
def IsForbidden [Alphabet] (c : Char) : Prop :=
  c = '\x00' ∨ Alphabet.isSurrogate c = true

theorem asEncoding_givesIff [Host] (name : Text) :
    GivesIff (asEncoding .lenient name) (∀ c ∈ name, ¬ IsForbidden c) := by
  have hall : (∀ c ∈ name, ¬ IsForbidden c) ↔
      Encoding.nameFault? name = none ∧ '\x00' ∉ name := by
    rw [Encoding.nameFault?, surrogateFault?_eq_none_iff]
    simp only [IsForbidden, not_or, Bool.not_eq_true, forall_and, and_comm]
    exact and_congr_left fun _ => List.forall_mem_ne'
  rw [hall]
  unfold asEncoding
  split
  · next fault hf => simpa [hf] using givesIff_throw _
  · next hf =>
    simp only [hf, true_and]
    split
    · next hz => simpa [List.contains_iff_mem.1 hz] using givesIff_throw _
    · next hz =>
      rw [show ('\x00' ∉ name) = True by simpa using hz]
      split
      · exact givesIff_pure _
      · exact givesIff_wrong _ _

theorem asPolicy_givesIff (name : Text) : GivesIff (asPolicy .lenient name) True := by
  simp only [asPolicy]
  split
  · exact givesIff_pure _
  · exact givesIff_wrong _ _

/-! ### Tables -/

theorem toNat_lt_of_isBlank {c : Char} (h : isBlank c = true) : c.toNat < 0xe000 := by
  obtain ⟨range, hmem, _, hle⟩ := (mem_ranges_iff _ _).1 h
  have hall : ∀ range ∈ blankRanges, range.2 < 0xe000 := by decide
  exact Nat.lt_of_le_of_lt hle (hall range hmem)

section
variable [Alphabet]

def HoldsForbidden (value : Value) : Prop :=
  ∃ name : Text, value = .text name ∧ ∃ c ∈ name, IsForbidden c

theorem isBlank_of_isForbidden {c : Char} (h : IsForbidden c) : isBlank c = false := by
  rw [Bool.eq_false_iff]
  intro hblank
  rcases h with rfl | hs
  · revert hblank
    decide
  · rw [Alphabet.isSurrogate_of_toNat_lt (toNat_lt_of_isBlank hblank)] at hs
    simp at hs

theorem exists_forbidden_strip_iff (t : Text) :
    (∃ c ∈ Text.strip t, IsForbidden c) ↔ ∃ c ∈ t, IsForbidden c :=
  exists_congr fun _ => and_congr_left fun h => Text.mem_strip_iff (isBlank_of_isForbidden h) t

/-- A text that is read holds a forbidden character if one was given. -/
theorem asText_gives_forbidden (mode : CheckMode) {key : String}
    (hkey : ∀ c ∈ Setting.defaultText key, ¬ IsForbidden c) (value : Value) :
    Gives (asText mode key value) fun x => (∀ c ∈ x, ¬ IsForbidden c) ↔ ¬ HoldsForbidden value := by
  have other {value : Value} (h : ∀ name, value ≠ .text name) :
      (∀ c ∈ Setting.defaultText key, ¬ IsForbidden c) ↔ ¬ HoldsForbidden value :=
    iff_of_true hkey fun ⟨name, hname, _⟩ => h name hname
  unfold asText
  cases value with
  | null => exact gives_pure (other fun _ h => by cases h)
  | text t =>
    have hholds : HoldsForbidden (.text t) ↔ ∃ c ∈ Text.strip t, IsForbidden c := by
      rw [exists_forbidden_strip_iff]
      exact ⟨fun ⟨name, hname, hc⟩ => Value.text.inj hname ▸ hc, fun hc => ⟨t, rfl, hc⟩⟩
    apply gives_pure
    rw [hholds]
    push Not
    split
    · next hempty => exact iff_of_true hkey (by simp [List.isEmpty_iff.1 hempty])
    · exact Iff.rfl
  | bool b => exact gives_next fun _ => gives_pure (other fun _ h => by cases h)
  | int n => exact gives_next fun _ => gives_pure (other fun _ h => by cases h)
  | real x => exact gives_next fun _ => gives_pure (other fun _ h => by cases h)
  | bytes b => exact gives_next fun _ => gives_pure (other fun _ h => by cases h)
  | list items => exact gives_next fun _ => gives_pure (other fun _ h => by cases h)
  | table entries => exact gives_next fun _ => gives_pure (other fun _ h => by cases h)

end

theorem readAll_givesIff {read : String → Value → Checking Value}
    (h : ∀ key value, GivesIff (read key value) True) (keys : List String) (t : Table) :
    GivesIff (readAll read keys t) True := by
  unfold readAll
  induction keys generalizing t with
  | nil => exact givesIff_pure t
  | cons key keys ih =>
    rw [List.foldlM_cons]
    exact givesIff_after (givesIff_after (h key _) fun value => givesIff_pure _) ih

theorem readAll_givesIff_singleton {read : String → Value → Checking Value} {key : String}
    {t : Table} {p : Prop} (h : GivesIff (read key (field t key)) p) :
    GivesIff (readAll read [key] t) p := by
  unfold readAll
  rw [List.foldlM_cons]
  exact givesIff_after (givesIff_after h fun value => givesIff_pure _) fun t' => givesIff_pure t'

theorem separate_givesIff (t : Table) : GivesIff (separate .lenient t) True := by
  unfold separate
  split
  · exact givesIff_wrong _ _
  · exact givesIff_pure t

/-- Only the count and the name of the encoding can stop a lenient check. The steps before them
leave what was given for the count as it is, and a forbidden character where it was. -/
theorem table_givesIff [Host] (given : Table) :
    GivesIff (Check.table .lenient given)
      (YieldsCount (field (Setting.defaults.update given) Setting.statRetries) ∧
        ¬ HoldsForbidden (field (Setting.defaults.update given) Setting.encoding)) := by
  have hplain : ∀ key ∈ textKeys, ∀ c ∈ Setting.defaultText key, ¬ IsForbidden c := by
    have hall : ∀ key ∈ textKeys, (Setting.defaultText key).all
        (fun c => decide (c ≠ '\x00' ∧ c.toNat < 0xe000)) = true := by decide
    intro key hk c hc hforbidden
    obtain ⟨hzero, hsmall⟩ := of_decide_eq_true (List.all_eq_true.1 (hall key hk) c hc)
    rcases hforbidden with hz | hs
    · exact hzero hz
    · rw [Alphabet.isSurrogate_of_toNat_lt hsmall] at hs
      simp at hs
  unfold Check.table
  refine givesIff_next (readAll_givesIff (fun key value => givesIff_map (asText_givesIff key value)
    _) _ _) (readAll_gives (by decide)
      (P := fun old v => ∃ x : Text, v = .text x ∧
        ((∀ c ∈ x, ¬ IsForbidden c) ↔ ¬ HoldsForbidden old))
      (fun key hk old => gives_map (asText_gives_forbidden .lenient (hplain key hk) old)
        fun x hx => ⟨x, rfl, hx⟩) (Setting.mem_keys_of_known (by decide) rfl)) fun t₁ h₁ => ?_
  refine givesIff_next (readAll_givesIff (fun key value => givesIff_map (asFlag_givesIff key value)
    _) _ _) (readAll_gives (by decide) (P := fun _ _ => True) (fun _ _ _ => gives_any _)
      (Setting.mem_keys_of_known (by decide) h₁.same)) fun t₂ h₂ => ?_
  have hkeys₂ := h₂.same.trans h₁.same
  have hcount : field t₂ Setting.statRetries =
      field (Setting.defaults.update given) Setting.statRetries := by
    rw [field, h₂.kept _ (by decide), h₁.kept _ (by decide), field]
  refine givesIff_bind (readAll_givesIff_singleton (givesIff_map (hcount ▸ asCount_givesIff _ _) _))
    (readAll_gives (by decide) (P := fun _ _ => True) (fun _ _ _ => gives_any _)
      (Setting.mem_keys_of_known (by decide) hkeys₂)) fun t₃ h₃ => ?_
  refine givesIff_next (readAll_givesIff (fun key value =>
    givesIff_map (asExtension_givesIff key value) _) _ _) (readAll_gives (by decide)
      (P := fun _ _ => True) (fun _ _ _ => gives_any _)
      (Setting.mem_keys_of_known (by decide) (h₃.same.trans hkeys₂))) fun t₄ h₄ => ?_
  refine givesIff_next (separate_givesIff t₄) (separate_gives_kept .lenient t₄) fun t₅ h₅ => ?_
  have hname : (∀ c ∈ textOf t₅ Setting.encoding, ¬ IsForbidden c) =
      ¬ HoldsForbidden (field (Setting.defaults.update given) Setting.encoding) := by
    obtain ⟨v, hv, x, rfl, hx⟩ := h₁.read Setting.encoding (by decide)
    have hget : t₅.get? Setting.encoding = some (.text x) := by
      rw [h₅ _ (by decide) (by decide), h₄.kept _ (by decide), h₃.kept _ (by decide),
        h₂.kept _ (by decide), hv]
    rw [textOf_of_get? hget, hx]
  rw [← hname]
  exact givesIff_after (asEncoding_givesIff _) fun encoding =>
    givesIff_after (asPolicy_givesIff _) fun policy => givesIff_pure _

end Check

/-- A lenient check gives settings for every value but a table with a count that can be neither read
nor refused, or with a zero character or a surrogate in the name of the encoding. -/
theorem lenient_check_iff [Host] (given : Value) :
    (∃ t findings, checkSettings .lenient given = .ok (t, findings)) ↔
      ∀ entries : Table, given = .table entries →
        YieldsCount (field (Setting.defaults.update entries) Setting.statRetries) ∧
        ∀ name : Text, field (Setting.defaults.update entries) Setting.encoding = .text name →
          ∀ c ∈ name, ¬ IsForbidden c := by
  unfold checkSettings
  split
  · next entries =>
    rw [table_givesIff entries []]
    constructor
    · rintro ⟨hcount, hname⟩ _ hsame
      obtain rfl := Value.table.inj hsame
      exact ⟨hcount, fun name hfield c hc hf => hname ⟨name, hfield, c, hc, hf⟩⟩
    · intro h
      obtain ⟨hcount, hname⟩ := h entries rfl
      exact ⟨hcount, fun ⟨name, hfield, c, hc, hf⟩ => hname name hfield c hc hf⟩
  · next other =>
    exact iff_of_true ⟨_, _, rfl⟩ fun entries h => absurd h (other entries)

section
open Standard

/-- A digit that is not a decimal one, and a zero character. -/
theorem exists_unanswered_check :
    checkSettings .lenient (.table [(Setting.statRetries, .text "²".toList)]) =
        .error (.notDecimal "²".toList) ∧
      checkSettings .lenient (.table [(Setting.encoding, .text "utf\x008".toList)]) =
        .error .zeroInName :=
  ⟨rfl, rfl⟩

end

end Inlay
