import Inlay.CommandLine.Switch

/-!
# Reading a command line

Arguments are taken from the left: a switch with its value, or all operands that the grammar
wants, as soon as the first of them stands there. What nobody wants is kept apart (`extras`).
-/

namespace Inlay

structure Findings where
  /-- The switches with their values, the last one first. -/
  switches : List (Switch × Option Text)
  operands : List Text
  extras : List Text
  deriving DecidableEq

namespace Findings

def none : Findings := ⟨[], [], []⟩

/-- The value of a switch, if the switch is given; the last one counts. -/
def value? (f : Findings) (s : Switch) : Option Text :=
  (f.switches.lookup s).bind id

def has (f : Findings) (s : Switch) : Bool :=
  (f.switches.lookup s).isSome

end Findings

inductive EarlyEnd where
  | fault (program : String) (f : UsageFault)
  | help (program : String)
  | version
  deriving DecidableEq

def takeValue (s : Switch) (value : Option Text) (rest : List Argument) :
    Except UsageFault (Option Text × List Argument) :=
  match s.arity, value, rest with
  | .flag, none, rest => .ok (none, rest)
  | .flag, some v, _ => .error (.unexpectedValue s v)
  | _, some v, rest => .ok (some v, rest)
  | _, none, ⟨v, .operand⟩ :: rest => .ok (some v, rest)
  | .value, none, _ => .error (.missingValue s)
  | .optionalValue, none, rest => .ok (some [], rest)

theorem length_of_takeValue {s : Switch} {value found : Option Text} {rest after : List Argument}
    (h : takeValue s value rest = .ok (found, after)) : after.length ≤ rest.length := by
  unfold takeValue at h
  split at h
  all_goals
    simp only [Except.ok.injEq, Prod.mk.injEq, reduceCtorEq] at h
  all_goals
    obtain ⟨_, rfl⟩ := h
    simp

def dropDivider : List Argument → List Argument
  | ⟨_, .divider⟩ :: rest => rest
  | rest => rest

theorem length_dropDivider (arguments : List Argument) :
    (dropDivider arguments).length ≤ arguments.length := by
  unfold dropDivider
  split <;> simp

/-- The operands at the start of some arguments, and the arguments after them. Two hyphens as the
second operand stand for nothing. -/
def takeOperands (wanted : Operands) (arguments : List Argument) :
    Option (List Text × List Argument) :=
  match wanted, dropDivider arguments with
  | .command, ⟨_, .operand⟩ :: _ => some (arguments.map (·.text), [])
  | .one, ⟨first, .operand⟩ :: rest => some ([first], dropDivider rest)
  | .oneOrTwo, ⟨first, .operand⟩ :: rest =>
    match dropDivider rest with
    | ⟨second, .operand⟩ :: rest =>
      some (first :: [second].filter (· ≠ Argument.dividerText), dropDivider rest)
    | rest => some ([first], rest)
  | _, _ => none

theorem length_of_takeOperands {wanted : Operands} {arguments after : List Argument}
    {operands : List Text} (h : takeOperands wanted arguments = some (operands, after)) :
    after.length < arguments.length := by
  have hd := length_dropDivider arguments
  unfold takeOperands at h
  split at h
  · next he =>
    simp only [Option.some.injEq, Prod.mk.injEq] at h
    obtain ⟨_, rfl⟩ := h
    simp only [he, List.length_cons] at hd
    simp only [List.length_nil]
    omega
  · next rest he =>
    simp only [Option.some.injEq, Prod.mk.injEq] at h
    obtain ⟨_, rfl⟩ := h
    have hr := length_dropDivider rest
    simp only [he, List.length_cons] at hd
    omega
  · next first rest he =>
    have hr := length_dropDivider rest
    simp only [he, List.length_cons] at hd
    split at h
    · next second more hm =>
      simp only [Option.some.injEq, Prod.mk.injEq] at h
      obtain ⟨_, rfl⟩ := h
      have hs := length_dropDivider more
      simp only [hm, List.length_cons] at hr
      omega
    · simp only [Option.some.injEq, Prod.mk.injEq] at h
      obtain ⟨_, rfl⟩ := h
      omega
  · simp at h

namespace Grammar

/-- Takes arguments from the left; `wanted` operands are still missing. -/
def collect (g : Grammar) (wanted : Option Operands) (found : Findings)
    (arguments : List Argument) : Except EarlyEnd Findings :=
  match arguments with
  | [] => .ok found
  | ⟨text, .unknown⟩ :: rest =>
    g.collect wanted { found with extras := found.extras ++ [text] } rest
  | ⟨_, .switch s value⟩ :: rest =>
    match h : takeValue s value rest with
    | .error f => .error (.fault g.program f)
    | .ok (value, after) =>
      have := length_of_takeValue h
      match s with
      | .help => .error (.help g.program)
      | .version => .error .version
      | s => g.collect wanted { found with switches := (s, value) :: found.switches } after
  | argument :: rest =>
    match h : wanted.bind (takeOperands · (argument :: rest)) with
    | some (operands, after) =>
      have : after.length ≤ rest.length := by
        obtain ⟨w, _, hw⟩ := Option.bind_eq_some_iff.1 h
        exact Nat.le_of_lt_succ (length_of_takeOperands hw)
      g.collect none { found with operands := operands } after
    | none => g.collect wanted { found with extras := found.extras ++ [argument.text] } rest
termination_by arguments.length

def read (g : Grammar) (texts : List Text) : Except EarlyEnd Findings :=
  match g.readArguments texts with
  | .error f => .error (.fault g.program f)
  | .ok arguments => g.collect (some g.operands) .none arguments

end Grammar

end Inlay
