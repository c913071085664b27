import Inlay.Proofs.Settings.WellFormed

/-!
# Settings that a check leaves alone

A check takes well-formed settings as they are, in both modes, and has nothing to report
(`check_fixed`). As what a check gives is well-formed, checking again changes nothing
(`check_again`).
-/

namespace Inlay

open Check

/-! ### Steps that change nothing -/

namespace Checking

variable {α β : Type}

/-- A step that gives a value and notes nothing. -/
def Leaves (step : Checking α) (x : α) : Prop :=
  ∀ notes, step.run notes = .ok (x, notes)

theorem leaves_pure (x : α) : Leaves (pure x) x := fun _ => rfl

theorem run_bind_of_leaves {step : Checking α} {next : α → Checking β} {x : α}
    (h : Leaves step x) (notes : List Finding) :
    (step >>= next).run notes = (next x).run notes := by
  rw [StateT.run_bind, h notes]
  rfl

theorem leaves_bind {step : Checking α} {next : α → Checking β} {x : α} {y : β}
    (h : Leaves step x) (hn : Leaves (next x) y) : Leaves (step >>= next) y := fun notes =>
  (run_bind_of_leaves h notes).trans (hn notes)

theorem leaves_map {step : Checking α} {x : α} (h : Leaves step x) (f : α → β) :
    Leaves (f <$> step) (f x) := by
  rw [map_eq_pure_bind]
  exact leaves_bind h (leaves_pure _)

end Checking

open Checking

theorem Text.strip_of_trimmed {t : Text} (h : t.Trimmed) : Text.strip t = t := by
  have keep {t : Text} (h : ∀ c ∈ t.head?, isBlank c = false) : t.dropWhile isBlank = t := by
    cases t with
    | nil => rfl
    | cons c rest => rw [List.dropWhile_cons, if_neg (by simp [h c rfl])]
  have hlast : ∀ c ∈ t.reverse.head?, isBlank c = false := by
    rw [List.head?_reverse]
    exact h.last
  rw [strip, trim, keep h.head, trimEnd, keep hlast, List.reverse_reverse]

namespace Check

theorem asText_leaves (mode : CheckMode) (key : String) {t : Text} (h : t.Trimmed) :
    Leaves (asText mode key (.text t)) t := by
  have hne : t.isEmpty = false := by simpa using h.ne_nil
  simp only [asText, Text.strip_of_trimmed h, hne, Bool.false_eq_true, if_false]
  exact leaves_pure t

theorem asExtension_leaves (mode : CheckMode) (key : String) {t : Text} (h : t.Trimmed)
    (hpoint : t.head? = some '.') : Leaves (asExtension mode key (.text t)) t := by
  refine leaves_bind (asText_leaves mode key h) ?_
  rw [if_pos hpoint]
  exact leaves_pure t

theorem asCount_leaves [Host] (mode : CheckMode) (key : String) {n : Int} (h : 0 ≤ n) :
    Leaves (asCount mode key (.int n)) n := by
  simp only [asCount, if_pos h]
  exact leaves_pure n

theorem asEncoding_leaves [Host] (mode : CheckMode) {name : Text} (h : Encoding.IsName name) :
    Leaves (asEncoding mode name) name := by
  have hz : name.contains '\x00' = false := by simpa using h.zeroFree
  simp only [asEncoding, h.encodable, hz, h.known, Bool.false_eq_true, if_false, if_true]
  exact leaves_pure name

theorem asPolicy_leaves (mode : CheckMode) (policy : StatPolicy) :
    Leaves (asPolicy mode policy.name.toList) policy.name.toList := by
  have hlower : Text.lower policy.name.toList = policy.name.toList := by
    cases policy <;> decide
  simp only [asPolicy, hlower, StatPolicy.ofName?_name, Option.isSome_some, if_true]
  exact leaves_pure _

theorem readAll_leaves {read : String → Value → Checking Value} {keys : List String} {t : Table}
    (h : ∀ key ∈ keys, ∃ value, t.get? key = some value ∧ Leaves (read key value) value) :
    Leaves (readAll read keys t) t := by
  unfold readAll
  induction keys with
  | nil => exact leaves_pure t
  | cons key keys ih =>
    obtain ⟨⟨value, hget, hread⟩, hrest⟩ := List.forall_mem_cons.1 h
    have hset : t.set key value = t := Table.set_of_get? hget
    rw [List.foldlM_cons]
    refine leaves_bind (x := t) ?_ (ih hrest)
    rw [field, hget, Option.getD_some]
    refine leaves_bind hread ?_
    rw [hset]
    exact leaves_pure t

theorem separate_leaves (mode : CheckMode) {t : Table} (h : Apart t) :
    Leaves (separate mode t) t := by
  obtain ⟨source, target, hs, ht, _, _, _, _, hne⟩ := h
  unfold separate
  rw [textOf_of_get? hs, textOf_of_get? ht, if_neg hne]
  exact leaves_pure t

theorem table_leaves [Host] (mode : CheckMode) {t : Table} (h : Setting.WellFormed t)
    (hk : Setting.defaults.update t = t) : Leaves (Check.table mode t) t := by
  obtain ⟨source, target, hs, ht, hsource, htarget, hsp, htp, _⟩ := h.apart
  obtain ⟨name, hname, hfind⟩ := h.encoding
  obtain ⟨policy, hpolicy⟩ := h.policy
  obtain ⟨n, hn, hpos⟩ := h.retries
  unfold Check.table
  simp only [hk]
  refine leaves_bind (x := t) (readAll_leaves fun key hkey => ?_) ?_
  · obtain ⟨x, hx, htrimmed⟩ := h.texts key hkey
    exact ⟨_, hx, leaves_map (asText_leaves mode key htrimmed) Value.text⟩
  refine leaves_bind (x := t) (readAll_leaves fun key hkey => ?_) ?_
  · obtain ⟨b, hb⟩ := h.flags key hkey
    exact ⟨_, hb, leaves_map (leaves_pure b) Value.bool⟩
  refine leaves_bind (x := t) (readAll_leaves fun key hkey => ?_) ?_
  · obtain rfl := List.mem_singleton.1 hkey
    exact ⟨_, hn, leaves_map (asCount_leaves mode _ hpos) Value.int⟩
  refine leaves_bind (x := t) (readAll_leaves fun key hkey => ?_) ?_
  · rcases List.mem_pair.1 hkey with rfl | rfl
    · exact ⟨_, hs, leaves_map (asExtension_leaves mode _ hsource hsp) Value.text⟩
    · exact ⟨_, ht, leaves_map (asExtension_leaves mode _ htarget htp) Value.text⟩
  refine leaves_bind (separate_leaves mode h.apart) ?_
  rw [textOf_of_get? hname]
  refine leaves_bind (asEncoding_leaves mode hfind) ?_
  rw [Table.set_of_get? hname, textOf_of_get? hpolicy]
  refine leaves_bind (asPolicy_leaves mode policy) ?_
  rw [Table.set_of_get? hpolicy]
  exact leaves_pure t

end Check

theorem Setting.nodup_keys_defaults : Setting.defaults.keys.Nodup := by decide

section
variable [Host]

theorem check_fixed (mode : CheckMode) {t : Table} (h : Setting.WellFormed t)
    (hk : Setting.defaults.update t = t) : checkSettings mode (.table t) = .ok (t, []) :=
  Check.table_leaves mode h hk []

/-! ### Checking again -/

/-- The known keys in their usual order, then the others, and none of them twice. -/
theorem Setting.keys_of_checkSettings {mode : CheckMode} {given : Value} {t : Table}
    {findings : List Finding} (h : checkSettings mode given = .ok (t, findings)) :
    t.keys.Nodup ∧ Setting.defaults.keys <+: t.keys := by
  have other (typeName : String) :
      Gives (do wrong mode (.notTable typeName); pure Setting.defaults) (· = Setting.defaults) :=
    gives_next fun _ => gives_pure rfl
  unfold checkSettings at h
  split at h
  · next entries =>
    rw [(Check.table_gives mode entries [] t findings h).keys]
    exact ⟨Table.nodup_keys_update Setting.nodup_keys_defaults entries,
      Table.keys_prefix_update _ _⟩
  · rw [other _ [] t findings h]
    exact ⟨Setting.nodup_keys_defaults, List.prefix_rfl⟩

/-- What a check gives, after whatever findings, passes every further check as it is. Settings that
are not known stay in their places with what was given for them. -/
theorem check_again {mode : CheckMode} {given : Value} {t : Table} {findings : List Finding}
    (h : checkSettings mode given = .ok (t, findings)) :
    checkSettings .strict (.table t) = .ok (t, []) ∧
      checkSettings .lenient (.table t) = .ok (t, []) := by
  obtain ⟨hnodup, hkeys⟩ := Setting.keys_of_checkSettings h
  have hupdate := Table.update_of_keys_prefix hnodup hkeys
  have hw := Setting.wellFormed_of_checkSettings h
  exact ⟨check_fixed .strict hw hupdate, check_fixed .lenient hw hupdate⟩

end

section
open Standard

/-- Settings that have to be trimmed, lowered, converted and completed, and one that is not known
and would be refused under a known key. -/
theorem check_again_of_sloppy :
    ∃ t findings, checkSettings .lenient (.table
        [("note", .list [.int (-1)]), (Setting.statPolicy, .text "\tS\u212aIP ".toList),
          (Setting.targetExtension, .text " min.tea\n".toList), (Setting.failFast, .int 1),
          (Setting.statRetries, .text " ٣ ".toList), (Setting.encoding, .bool true)]) =
        .ok (t, findings) ∧
      findings.length = 4 ∧ t.get? "note" = some (.list [.int (-1)]) ∧
      t.get? Setting.statPolicy = some (.text "skip".toList) ∧
      checkSettings .strict (.table t) = .ok (t, []) ∧
      checkSettings .lenient (.table t) = .ok (t, []) := by
  obtain ⟨t, findings, h, hlength, hnote, hpolicy⟩ : ∃ t findings, checkSettings .lenient (.table
      [("note", .list [.int (-1)]), (Setting.statPolicy, .text "\tS\u212aIP ".toList),
        (Setting.targetExtension, .text " min.tea\n".toList), (Setting.failFast, .int 1),
        (Setting.statRetries, .text " ٣ ".toList), (Setting.encoding, .bool true)]) =
      .ok (t, findings) ∧ findings.length = 4 ∧ t.get? "note" = some (.list [.int (-1)]) ∧
        t.get? Setting.statPolicy = some (.text "skip".toList) :=
    ⟨_, _, rfl, rfl, rfl, rfl⟩
  exact ⟨t, findings, h, hlength, hnote, hpolicy, check_again h⟩

end

end Inlay
