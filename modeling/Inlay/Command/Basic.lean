import Inlay.Json.Value

/-!
# Commands and their results

A command is a request for a path. Its result lists the outcome of every file, with counters.
-/

namespace Inlay

/-- What a command is asked to do. -/
structure Request where
  command : String
  input : Path
  output : Option Path
  /-- Only report what would be removed. -/
  dryRun : Bool
  deriving DecidableEq

namespace Request

variable [Alphabet]

def displayOption (text : Option Text) : String :=
  match text with
  | some t => quoted t
  | none => Value.null.display

def display (r : Request) : String :=
  s!"CommandRequest(command={quoted r.command.toList}, input_path={quoted r.input}, " ++
    s!"output_path={displayOption r.output}, dry_run={Value.displayBool r.dryRun})"

end Request

/-- What happened to a file. -/
structure Outcome where
  source : Path
  output : Path
  ok : Bool
  action : String
  error : String
  deriving DecidableEq

namespace Outcome

def compiled (source output : Path) : Outcome :=
  ⟨source, output, true, "compiled", ""⟩

def failed (source output : Path) (error : String) : Outcome :=
  ⟨source, output, false, "failed", error⟩

def deleted (source output : Path) : Outcome :=
  ⟨source, output, true, "deleted", ""⟩

def skipped (source output : Path) : Outcome :=
  ⟨source, output, true, "skipped", ""⟩

def sort (outcomes : List Outcome) : List Outcome :=
  outcomes.mergeSort fun a b => Text.atMost a.source b.source

end Outcome

structure Result where
  ok : Bool
  command : String
  error : String
  input : Path
  output : Path
  outcomes : List Outcome
  summary : Table

namespace Result

def counters : List String :=
  ["compiled", "deleted", "skipped", "errors"]

/-- The counter that an outcome adds to, if any: failures are errors whatever they did. -/
def counter? (o : Outcome) : Option String :=
  if o.ok then counters.find? (· == o.action) else some "errors"

def count (outcomes : List Outcome) (counter : String) : Nat :=
  outcomes.countP fun o => counter? o == some counter

def summarize (outcomes : List Outcome) : Table :=
  counters.map fun counter => (counter, .int (count outcomes counter))

def failures (r : Result) : List Outcome :=
  r.outcomes.filter (!·.ok)

/-- The result of a command that could not do its work. -/
def rejected (error : String) (request : Request) (output : Path) (outcomes : List Outcome)
    (extra : Table) : Result where
  ok := false
  command := request.command
  error := error
  input := request.input
  output := output
  outcomes := outcomes
  summary := (summarize outcomes).update extra

def isZero : Value → Bool
  | .int n => n == 0
  | .bool b => !b
  | .real x => x.isZero
  | _ => false

/-- A value in an error text; texts stand without quotes. -/
def plain [Alphabet] : Value → String
  | .text t => str t
  | value => value.display

/-- The result of a batch; it is fine if the number of errors is zero. -/
def ofBatch [Alphabet] (request : Request) (output : Path) (outcomes : List Outcome)
    (extra : Table) :
    Result :=
  let summary := (summarize outcomes).update extra
  let errors := (summary.get? "errors").getD .null
  { ok := isZero errors
    command := request.command
    error := if errors.isSet then plain errors ++ " file(s) failed" else ""
    input := request.input
    output := output
    outcomes := outcomes
    summary := summary }

/-! ### As a value -/

def outcomeValue (o : Outcome) : Value :=
  .table
    [ ("source", .text o.source), ("output", .text o.output), ("ok", .bool o.ok),
      ("action", .text o.action.toList), ("error", .text o.error.toList) ]

def value (r : Result) : Value :=
  .table
    [ ("ok", .bool r.ok), ("command", .text r.command.toList), ("error", .text r.error.toList),
      ("input_path", .text r.input), ("output_path", .text r.output),
      ("outcomes", .list (r.outcomes.map outcomeValue)), ("summary", .table r.summary) ]

end Result

end Inlay
