import Inlay.Command.Compile
import Inlay.Proofs.Text.Occurrence
import Inlay.Proofs.Text.Pieces
import Inlay.Proofs.Workspace.Run
import Mathlib

/-!
# Answers to references

A reference is answered by a compiler or by a value fault, which those who load compilers are
prepared for, whatever modules there are to import, as long as none of them fails on its own. Three
kinds of references get another answer (`reference_answered`): one that spells its module relative
to a package, one to a module inside too many packages, and one to a class from which no compiler
can be made.
-/

namespace Inlay

namespace Catalogue

variable {modules : List Module} {name : Text}

/-! ### Importing a module -/

theorem mem_outward_iff {outer : Text} :
    outer ∈ outward name ↔ outer = name ∨ ∃ rest, name = outer ++ '.' :: rest := by
  simp only [outward, List.mem_map, List.mem_range]
  constructor
  · rintro ⟨n, hn, rfl⟩
    by_cases hlast : n + 1 = (Text.split '.' name).length
    · left
      rw [hlast, List.take_length, Text.join_split]
    · right
      have hfront : (Text.split '.' name).take (n + 1) ≠ [] := by
        simp [Text.split_ne_nil]
      have hback : (Text.split '.' name).drop (n + 1) ≠ [] := by
        simp only [ne_eq, List.drop_eq_nil_iff]
        omega
      refine ⟨Text.join '.' ((Text.split '.' name).drop (n + 1)), ?_⟩
      rw [← Text.join_append '.' hfront hback, List.take_append_drop, Text.join_split]
  · have hpos (t : Text) : 0 < (Text.split '.' t).length :=
      List.length_pos_iff.2 (Text.split_ne_nil '.' t)
    rintro (rfl | ⟨rest, rfl⟩)
    · refine ⟨(Text.split '.' outer).length - 1, Nat.sub_lt (hpos outer) Nat.one_pos, ?_⟩
      rw [Nat.sub_add_cancel (hpos outer), List.take_length, Text.join_split]
    · have hlen := hpos rest
      refine ⟨(Text.split '.' outer).length - 1, ?_, ?_⟩
      · rw [Text.split_append_cons, List.length_append]
        omega
      · rw [Nat.sub_add_cancel (hpos outer), Text.split_append_cons, List.take_left,
          Text.join_split]

section
variable (hquiet : ∀ m ∈ modules, m.fault = none)
include hquiet

theorem fault_of_find? {m : Module} (h : find? modules name = some m) : m.fault = none :=
  hquiet m (List.mem_of_find?_eq_some h)

theorem enter_eq_ok_iff {wanted : Text} {parent : Option Module} {names : List Text} :
    enter modules wanted parent names = .ok () ↔ ∀ n ∈ names, ∃ m, find? modules n = some m := by
  induction names generalizing parent with
  | nil => simp [enter]
  | cons n rest ih =>
    rw [List.forall_mem_cons]
    cases hf : find? modules n with
    | some m => simp [enter, hf, fault_of_find? hquiet hf, ih]
    | none => cases parent <;> simp [enter, hf]

theorem isValueFault_of_enter {wanted : Text} {parent : Option Module} {names : List Text}
    {f : Failure} (h : enter modules wanted parent names = .error f) :
    f.isValueFault = true := by
  induction names generalizing parent with
  | nil => simp [enter] at h
  | cons n rest ih =>
    cases hf : find? modules n with
    | some m =>
      simp only [enter, hf, fault_of_find? hquiet hf] at h
      exact ih h
    | none =>
      cases parent with
      | none =>
        simp only [enter, hf, Except.error.injEq] at h
        rw [← h]
        rfl
      | some p =>
        simp only [enter, hf, Except.error.injEq] at h
        rw [← h]
        split <;> rfl

end

variable [Host]

/-- A module that can be imported by its name: it is there, so is what is named in front of each
point, and not too many of them have to be imported around each other. -/
structure Importable (modules : List Module) (name : Text) (m : Module) : Prop where
  ne_nil : name ≠ []
  absolute : name.head? ≠ some '.'
  shallow : depth modules name ≤ Host.importDepth
  found : find? modules name = some m
  around : ∀ outer rest, name = outer ++ '.' :: rest → ∃ p, find? modules outer = some p

theorem load_of_relative (h : name.head? = some '.') :
    load modules name = .error (.reference (.relativeModule name)) := by
  rw [load, if_pos h]
  rfl

theorem load_of_deep (h : name.head? ≠ some '.') (hne : name ≠ [])
    (hdeep : Host.importDepth < depth modules name) :
    load modules name = .error (.reference .tooDeep) := by
  have hempty : ¬ name.isEmpty = true := by simpa using hne
  rw [load, if_neg h, if_neg hempty, if_pos hdeep]
  rfl

theorem load_of_shallow (h : name.head? ≠ some '.') (hne : name ≠ [])
    (hshallow : depth modules name ≤ Host.importDepth) :
    load modules name = (enter modules name none (outward name)).bind fun _ =>
      match find? modules name with
      | some m => .ok m
      | none => .error (.reference (.noModule name name)) := by
  have hempty : ¬ name.isEmpty = true := by simpa using hne
  rw [load, if_neg h, if_neg hempty, if_neg (Nat.not_lt.2 hshallow)]
  rfl

section
variable (hquiet : ∀ m ∈ modules, m.fault = none)
include hquiet

/-- A module that is neither named relative to a package nor inside too many of them is found, or
its absence is a value fault. -/
theorem load_cases (h : name.head? ≠ some '.')
    (hdeep : name ≠ [] → depth modules name ≤ Host.importDepth) :
    (∃ m, load modules name = .ok m ∧ Importable modules name m) ∨
      ∃ f, load modules name = .error f ∧ f.isValueFault = true ∧
        ∀ m, ¬ Importable modules name m := by
  by_cases hne : name = []
  · right
    refine ⟨.reference .emptyModule, ?_, rfl, fun m hm => hm.ne_nil hne⟩
    rw [hne]
    rfl
  · rw [load_of_shallow h hne (hdeep hne)]
    cases he : enter modules name none (outward name) with
    | error f =>
      refine Or.inr ⟨f, rfl, isValueFault_of_enter hquiet he, fun m hm => ?_⟩
      have hall : enter modules name none (outward name) = .ok () := by
        refine (enter_eq_ok_iff hquiet).2 fun n hn => ?_
        rcases mem_outward_iff.1 hn with rfl | ⟨rest, hrest⟩
        · exact ⟨m, hm.found⟩
        · exact hm.around n rest hrest
      rw [he] at hall
      simp at hall
    | ok _ =>
      have hall := (enter_eq_ok_iff hquiet).1 he
      obtain ⟨m, hm⟩ := hall name (mem_outward_iff.2 (Or.inl rfl))
      refine Or.inl ⟨m, by rw [hm]; rfl, hne, h, hdeep hne, hm, fun outer rest hr => ?_⟩
      exact hall outer (mem_outward_iff.2 (Or.inr ⟨rest, hr⟩))

theorem load_of_importable {m : Module} (h : Importable modules name m) :
    load modules name = .ok m := by
  obtain ⟨m', hload, hm'⟩ | ⟨f, _, _, hno⟩ := load_cases hquiet h.absolute fun _ => h.shallow
  · rw [hload, Except.ok.injEq]
    exact Option.some.inj (hm'.found.symm.trans h.found)
  · exact absurd h (hno m)

end

end Catalogue

namespace Compiler

variable {modules : List Module} {registry : Registry} {reference name member : Text} {f : Failure}

/-! ### References to modules -/

/-- A reference that is not registered, with the module and the member that it names. -/
structure Names (registry : Registry) (reference name member : Text) : Prop where
  free : registry.lookup (Text.strip reference) = none
  key : Text.strip reference = name ++ ':' :: member
  first : ':' ∉ name

/-- What a member of a module is as a compiler. -/
def ofMember (reference name member : Text) (m : Module) : Except Failure (Compiler × Bool) :=
  match m.attributes.lookup (str member) with
  | none => .error (.reference (.noAttribute name member))
  | some a => (ofAttribute (Text.strip reference) a).map (·, true)

theorem isValueFault_or_maker_of_ofMember {m : Module}
    (h : ofMember reference name member m = .error f) :
    f.isValueFault = true ∨ m.attributes.lookup (str member) = some (.maker (.error f)) := by
  unfold ofMember at h
  cases hl : m.attributes.lookup (str member) with
  | none =>
    rw [hl] at h
    rw [← Except.error.inj h]
    exact Or.inl rfl
  | some a =>
    rw [hl] at h
    cases a with
    | compiler c => simp [ofAttribute, Except.map] at h
    | function call => simp [ofAttribute, Except.map] at h
    | plain =>
      rw [← Except.error.inj h]
      exact Or.inl rfl
    | maker make =>
      cases make with
      | ok c => simp [ofAttribute, Except.map] at h
      | error g =>
        rw [← Except.error.inj h]
        exact Or.inr rfl

variable [Host]

theorem resolve_of_names (h : Names registry reference name member) :
    resolve modules registry reference =
      match Catalogue.load modules name with
      | .error f => .error f
      | .ok m => ofMember reference name member m := by
  have hcut := Text.cutFirst_singleton_eq_some_iff.2 ⟨h.key, h.first⟩
  simp only [resolve, h.free, hcut]
  rfl

/-- A reference that does not name a member of a module is registered, or unknown. -/
theorem resolve_cases (modules : List Module) (registry : Registry) (reference : Text) :
    (∃ compiler, resolve modules registry reference = .ok (compiler, false)) ∨
      resolve modules registry reference =
        .error (.reference (.unknownName reference registry.names)) ∨
      ∃ name member, Names registry reference name member := by
  cases hl : registry.lookup (Text.strip reference) with
  | some compiler => exact Or.inl ⟨compiler, by simp only [resolve, hl]⟩
  | none =>
    cases hcut : Text.cutFirst [':'] (Text.strip reference) with
    | none => exact Or.inr (Or.inl (by simp only [resolve, hl, hcut]))
    | some cut =>
      obtain ⟨name, member⟩ := cut
      obtain ⟨hkey, hfirst⟩ := Text.cutFirst_singleton_eq_some_iff.1 hcut
      exact Or.inr (Or.inr ⟨name, member, hl, hkey, hfirst⟩)

/-! ### References without an answer -/

/-- A reference for which there is neither a compiler nor a value fault, with the failure that
there is instead. -/
inductive Unanswered (modules : List Module) (registry : Registry) (reference : Text) :
    Failure → Prop
  | relative {name member : Text} (names : Names registry reference name member)
      (relative : name.head? = some '.') :
      Unanswered modules registry reference (.reference (.relativeModule name))
  | nested {name member : Text} (names : Names registry reference name member) (ne_nil : name ≠ [])
      (absolute : name.head? ≠ some '.') (deep : Host.importDepth < Catalogue.depth modules name) :
      Unanswered modules registry reference (.reference .tooDeep)
  | unmade {name member : Text} {m : Module} {f : Failure}
      (names : Names registry reference name member)
      (importable : Catalogue.Importable modules name m)
      (isClass : m.attributes.lookup (str member) = some (.maker (.error f)))
      (other : f.isValueFault = false) :
      Unanswered modules registry reference f

theorem Unanswered.isValueFault_eq (h : Unanswered modules registry reference f) :
    f.isValueFault = false := by
  cases h with
  | relative _ _ => rfl
  | nested _ _ _ _ => rfl
  | unmade _ _ _ other => exact other

theorem Unanswered.resolve_eq (hquiet : ∀ m ∈ modules, m.fault = none)
    (h : Unanswered modules registry reference f) :
    resolve modules registry reference = .error f := by
  cases h with
  | relative names relative =>
    rw [resolve_of_names names, Catalogue.load_of_relative relative]
  | nested names ne_nil absolute deep =>
    rw [resolve_of_names names, Catalogue.load_of_deep absolute ne_nil deep]
  | unmade names importable isClass _ =>
    rw [resolve_of_names names, Catalogue.load_of_importable hquiet importable]
    simp only [ofMember, isClass]
    rfl

theorem unanswered_of_resolve (hquiet : ∀ m ∈ modules, m.fault = none)
    (h : resolve modules registry reference = .error f) (hf : f.isValueFault = false) :
    Unanswered modules registry reference f := by
  rcases resolve_cases modules registry reference with ⟨c, hc⟩ | hu | ⟨name, member, names⟩
  · simp [hc] at h
  · rw [hu] at h
    rw [← Except.error.inj h] at hf
    cases hf
  · rw [resolve_of_names names] at h
    by_cases hrel : name.head? = some '.'
    · rw [Catalogue.load_of_relative hrel] at h
      rw [← Except.error.inj h]
      exact .relative names hrel
    by_cases hdeep : name ≠ [] ∧ Host.importDepth < Catalogue.depth modules name
    · rw [Catalogue.load_of_deep hrel hdeep.1 hdeep.2] at h
      rw [← Except.error.inj h]
      exact .nested names hdeep.1 hrel hdeep.2
    have hshallow (hne : name ≠ []) : Catalogue.depth modules name ≤ Host.importDepth :=
      Nat.not_lt.1 fun hlt => hdeep ⟨hne, hlt⟩
    rcases Catalogue.load_cases hquiet hrel hshallow with ⟨m, hload, hm⟩ | ⟨g, hload, hg, _⟩
    · rw [hload] at h
      rcases isValueFault_or_maker_of_ofMember h with ht | hclass
      · simp [ht] at hf
      · exact .unmade names hm hclass hf
    · rw [hload] at h
      rw [← Except.error.inj h, hg] at hf
      simp at hf

/-! ### Loading -/

theorem runOn_loadCompiler_of_error {s : Workspace}
    (h : resolve s.modules s.registry reference = .error f) :
    (loadCompiler reference).runOn s = (.error f, s) := by
  unfold loadCompiler
  rw [Action.runOn_bind_of_ok (Action.runOn_get s), h]
  rfl

theorem exists_runOn_loadCompiler {s : Workspace} {compiler : Compiler} {fromModule : Bool}
    (h : resolve s.modules s.registry reference = .ok (compiler, fromModule)) :
    ∃ t, (loadCompiler reference).runOn s = (.ok compiler, t) := by
  unfold loadCompiler
  rw [Action.runOn_bind_of_ok (Action.runOn_get s), h]
  cases fromModule with
  | false => exact ⟨s, rfl⟩
  | true => exact ⟨_, rfl⟩

/-- Where no module fails on its own, loading gives a compiler or a value fault for every reference,
unless it spells a module relative to a package, or one inside too many packages, or names a class
from which no compiler can be made. Then it gives the failure of that. -/
theorem reference_answered {s : Workspace} (hquiet : ∀ m ∈ s.modules, m.fault = none)
    (reference : Text) :
    ((∃ compiler t, (loadCompiler reference).runOn s = (.ok compiler, t)) ∨
        (∃ f, (loadCompiler reference).runOn s = (.error f, s) ∧ f.isValueFault = true) ↔
      ∀ f, ¬ Unanswered s.modules s.registry reference f) ∧
    ∀ f, Unanswered s.modules s.registry reference f →
      (loadCompiler reference).runOn s = (.error f, s) ∧ f.isValueFault = false := by
  have hun (f : Failure) (h : Unanswered s.modules s.registry reference f) :
      (loadCompiler reference).runOn s = (.error f, s) :=
    runOn_loadCompiler_of_error (h.resolve_eq hquiet)
  refine ⟨⟨?_, fun hno => ?_⟩, fun f h => ⟨hun f h, h.isValueFault_eq⟩⟩
  · rintro (⟨compiler, t, hrun⟩ | ⟨g, hrun, hg⟩) f h
    · rw [hun f h] at hrun
      simp at hrun
    · rw [hun f h] at hrun
      simp only [Prod.mk.injEq, Except.error.injEq, and_true] at hrun
      rw [← hrun, h.isValueFault_eq] at hg
      simp at hg
  · cases hr : resolve s.modules s.registry reference with
    | ok r =>
      obtain ⟨t, hrun⟩ := exists_runOn_loadCompiler hr
      exact Or.inl ⟨r.1, t, hrun⟩
    | error f =>
      refine Or.inr ⟨f, runOn_loadCompiler_of_error hr, ?_⟩
      by_contra hf
      exact hno f (unanswered_of_resolve hquiet hr (by simpa using hf))

end Compiler

end Inlay

namespace Inlay.Compiler

open Inlay.Standard

theorem fault_of_mem_modules : ∀ m ∈ Catalogue.modules, m.fault = none := by
  simp [Catalogue.modules, Catalogue.ownModules, Catalogue.ownModule, Catalogue.wordModule]

/-- A module that is spelled relative to a package. -/
theorem unanswered_of_point :
    (loadCompiler ".compilers:build".toList).runOn (Workspace.initial [] []) =
        (.error (.reference (.relativeModule ".compilers".toList)), Workspace.initial [] []) ∧
      (Failure.reference (.relativeModule ".compilers".toList)).isValueFault = false := by
  have names : Names Registry.initial ".compilers:build".toList ".compilers".toList
      "build".toList := ⟨by cbv, by cbv, by decide⟩
  exact (reference_answered (s := Workspace.initial [] []) fault_of_mem_modules _).2 _
    (.relative names rfl)

/-- A module that is spelled relative to a package, an abstract class, and a class of compilers that
are made from something. -/
theorem exists_unanswered_reference :
    ∃ f g h, (loadCompiler ".compilers:build".toList).runOn (Workspace.initial [] []) =
        (.error f, Workspace.initial [] []) ∧
      (loadCompiler "icedtea.core.compilers:FragmentCompiler".toList).runOn
        (Workspace.initial [] []) = (.error g, Workspace.initial [] []) ∧
      (loadCompiler "icedtea.core.compilers:CallableCompiler".toList).runOn
        (Workspace.initial [] []) = (.error h, Workspace.initial [] []) ∧
      f.kind = "TypeError" ∧ g.kind = "TypeError" ∧ h.kind = "TypeError" := by
  have hrelative : resolve Catalogue.modules Registry.initial ".compilers:build".toList =
      .error (.reference (.relativeModule ".compilers".toList)) := by cbv
  have habstract : resolve Catalogue.modules Registry.initial
      "icedtea.core.compilers:FragmentCompiler".toList =
        .error (.reference (.abstractClass "FragmentCompiler" "compile")) := by cbv
  have hargument : resolve Catalogue.modules Registry.initial
      "icedtea.core.compilers:CallableCompiler".toList =
        .error (.reference (.missingArgument "CallableCompiler" "func")) := by cbv
  exact ⟨_, _, _, runOn_loadCompiler_of_error hrelative, runOn_loadCompiler_of_error habstract,
    runOn_loadCompiler_of_error hargument, rfl, rfl, rfl⟩

end Inlay.Compiler
