import Inlay.Command.Compile

/-!
# Watching

A watched file or folder is compiled again when it changes. A folder is watched with everything
below it, and a changed source goes to its place in the output; a single file is watched through
its folder and always goes to the same output. A failed compilation is recorded, and the watch
goes on.
-/

namespace Inlay.Watch

def logger : String := "icedtea.core.pipeline.watch"

/-! ### Events -/

inductive EventKind where
  | created
  | modified
  | moved
  | deleted
  | closed
  | opened
  | closedUnchanged
  deriving DecidableEq

def EventKind.bringsContent : EventKind → Bool
  | created | modified | moved => true
  | _ => false

structure Event where
  kind : EventKind
  isFolder : Bool
  source : Path
  destination : Path
  deriving DecidableEq

def Event.path (e : Event) : Path :=
  if e.kind = .moved then e.destination else e.source

/-- A path as an observer spells it. -/
inductive Spelling where
  | text (path : Path)
  | bytes (path : Bytes)
  deriving DecidableEq

/-- The path, with `decode` for the names of the file system. -/
def Spelling.path (decode : Bytes → Path) : Spelling → Path
  | text path => path
  | bytes path => if path.isEmpty then [] else decode path

/-- What an observer reports. -/
structure Notice where
  kind : EventKind
  isFolder : Bool
  source : Spelling
  destination : Spelling
  deriving DecidableEq

def Notice.event (decode : Bytes → Path) (n : Notice) : Event :=
  ⟨n.kind, n.isFolder, n.source.path decode, n.destination.path decode⟩

/-! ### Handlers -/

structure Handler where
  input : Path
  output : Path
  isFolder : Bool
  compiler : Compiler
  profile : Profile

variable [Host]

/-- Is a changed file our own output? A file with both extensions is a source. -/
def isOwnOutput (profile : Profile) (name : Text) : Action Bool := do
  let target ← Action.need Setting.targetExtension profile.targetExtension
  if Path.hasExtension name target then
    let source ← Action.need Setting.sourceExtension profile.sourceExtension
    pure (!Path.hasExtension name source)
  else pure false

def wayBelow? (v : Volume) (folder path : Path) : Option Path :=
  let way := Path.relative (v.absolute path) (v.absolute folder)
  if way = Path.above ∨ (Path.above ++ ['/']).isPrefixOf way then none else some way

def jobInFolder? (h : Handler) (path : Path) : Action (Option Job) := do
  let source ← Action.need Setting.sourceExtension h.profile.sourceExtension
  if !Path.hasExtension path source then return none
  match wayBelow? (← get).volume h.input path with
  | none => return none
  | some way => do
    let file := Path.join h.input way
    let target ← Action.need Setting.targetExtension h.profile.targetExtension
    match Path.mirror file h.input h.output target source with
    | .ok output => return some ⟨file, output⟩
    | .error m => throw (.misplaced m)

def jobOf? (h : Handler) (e : Event) : Action (Option Job) := do
  if e.isFolder || !e.kind.bringsContent || e.path.isEmpty then return none
  if ← isOwnOutput h.profile (Path.base e.path) then return none
  if h.isFolder then jobInFolder? h e.path
  else
    let v := (← get).volume
    return if v.absolute e.path = v.absolute h.input then some ⟨h.input, h.output⟩ else none

def recompile (h : Handler) (job : Job) : Action Outcome := do
  let outcome ← match ← Action.attempt (Compile.toOutcome h.compiler h.profile job) with
    | .ok outcome => pure outcome
    | .error f =>
      if f.leaves then throw f
      else do
        Action.log Level.error logger
          s!"Unexpected failure recompiling '{str job.source}': {f.message}"
        pure (.failed job.source job.output f.message)
  if outcome.ok then
    Action.log Level.info logger s!"Recompiled '{str job.source}' -> '{str job.output}'"
  pure outcome

def handle (h : Handler) (e : Event) : Action (Option Outcome) := do
  match ← jobOf? h e with
  | none => pure none
  | some job => do pure (some (← recompile h job))

/-! ### Records -/

/-- A watch at work: what it acts on, the outcomes that it has recorded, oldest first, and what
the listener knows. -/
structure Watching (σ : Type) where
  workspace : Workspace
  outcomes : List Outcome
  listener : σ

/-- Is told about an outcome. It may act on the workspace too, and it may fail. -/
abbrev Listener (σ : Type) := Outcome → Workspace × σ → Except Failure Unit × Workspace × σ

/-- What an event does to a watch. A new outcome is recorded before the listener is told. -/
def onEvent {σ : Type} (h : Handler) (tell : Listener σ) (e : Event) (w : Watching σ) :
    Except Failure Unit × Watching σ :=
  match (handle h e).runOn w.workspace with
  | (.error f, s) => (.error f, { w with workspace := s })
  | (.ok none, s) => (.ok (), { w with workspace := s })
  | (.ok (some outcome), s) =>
    let (result, s, listener) := tell outcome (s, w.listener)
    (result, ⟨s, w.outcomes ++ [outcome], listener⟩)

/-- Does an event come to the comparison of its path with the watched one? -/
def comparesPaths (h : Handler) (e : Event) : Action Bool := do
  if e.isFolder || !e.kind.bringsContent || e.path.isEmpty then return false
  if ← isOwnOutput h.profile (Path.base e.path) then return false
  if h.isFolder then
    return Path.hasExtension e.path
      (← Action.need Setting.sourceExtension h.profile.sourceExtension)
  else return true

/-- The paths that an event is judged by in absolute form. -/
def spellOut (h : Handler) (e : Event) : Action Unit := do
  if ← comparesPaths h e then
    let _ ← Action.absolute e.path
    let _ ← Action.absolute h.input

/-- What an observer runs for an event. A failure ends the watch. -/
def receive {σ : Type} (h : Handler) (tell : Listener σ) (e : Event) (w : Watching σ) :
    Except Failure Unit × Watching σ :=
  match (spellOut h e).runOn w.workspace with
  | (.error f, s) => (.error f, { w with workspace := s })
  | (.ok (), _) => onEvent h tell e w

/-! ### Subscriptions -/

inductive ObserverCall where
  | schedule (path : Path) (deep : Bool)
  | start
  | stop
  | join
  deriving DecidableEq

structure Subscription where
  target : Path
  handler : Handler
  calls : List ObserverCall
  stopped : Bool

def outputOf (v : Volume) (input : Path) (output : Option Path) (isFolder : Bool)
    (target extension : Text) : Path :=
  if isFolder then (output.filter (!·.isEmpty)).getD input
  else Compile.singleOutput v input output target extension

def watchPath (request : Request) (profile : Profile) (compiler : Option Compiler) :
    Action Subscription := do
  let input := request.input
  let v := (← get).volume
  if !v.hasEntry input then throw (.path (.missing input))
  let compiler ← match compiler with
    | some compiler => pure compiler
    | none => do loadCompiler (← Action.need Setting.compiler profile.compiler)
  let isFolder := v.isFolder input
  let target ← Action.need Setting.targetExtension profile.targetExtension
  let extension ← Action.need Setting.sourceExtension profile.sourceExtension
  let output := outputOf v input request.output isFolder target extension
  let watched ← if isFolder then pure input else Path.folder <$> Action.absolute input
  Action.log Level.info logger s!"Watching {str input} (output: {str output})"
  pure
    { target := input
      handler := ⟨input, output, isFolder, compiler, profile⟩
      calls := [.schedule watched isFolder, .start]
      stopped := false }

/-- Stops a watch, once. -/
def Subscription.stop (s : Subscription) : Action Subscription := do
  if s.stopped then return s
  Action.log Level.info logger s!"Stopped watching {str s.target}"
  return { s with calls := s.calls ++ [.stop, .join], stopped := true }

end Inlay.Watch
