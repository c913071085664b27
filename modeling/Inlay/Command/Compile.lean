import Inlay.Command.Report
import Inlay.Command.Walk
import Inlay.Fragment.Transform

/-!
# Compiling

A file is read, its fragments are compiled, and the result is written; the same step serves the
single file, the batch and the watch (`compileFile`). In a batch a failing file is recorded and
the others go on, unless the settings ask to stop at the first failure.
-/

namespace Inlay

namespace Profile

/-- The markers; absent ones have their defaults. -/
def tags (profile : Profile) : Tags where
  openTag := profile.openTag.getD (Setting.defaultText Setting.openTag)
  closeTag := profile.closeTag.getD (Setting.defaultText Setting.closeTag)
  targetOpen := profile.targetOpenTag.getD (Setting.defaultText Setting.targetOpenTag)
  targetClose := profile.targetCloseTag.getD (Setting.defaultText Setting.targetCloseTag)

end Profile

structure Job where
  source : Path
  output : Path
  deriving DecidableEq

def referenceLogger : String := "icedtea.core.compilers.registry"

variable [Host]

/-- Loads the compiler that a reference stands for. -/
def loadCompiler (reference : Text) : Action Compiler := do
  let s ← get
  match Compiler.resolve s.modules s.registry reference with
  | .error f => throw f
  | .ok (compiler, fromModule) => do
    if fromModule then
      let key := str (Text.strip reference)
      Action.log Level.debug referenceLogger
        s!"Loaded fragment compiler '{key}' ({compiler.typeName})"
    pure compiler

namespace Compile

def logger : String := "icedtea.core.pipeline.compile"

/-! ### One file -/

def compileFile (compiler : Compiler) (profile : Profile) (job : Job) : Action Unit := do
  let encoding ← Action.need Setting.encoding profile.encoding
  let source ← Action.readSource job.source encoding
  match transform compiler profile.tags job.source source with
  | .error f => throw f
  | .ok output => do
    Action.ensureParent job.output
    Action.writeOutput job.output output encoding
    Action.log Level.debug logger s!"Compiled '{str job.source}' -> '{str job.output}'"

/-- Compiles a file; a failure of the file becomes its outcome. -/
def toOutcome (compiler : Compiler) (profile : Profile) (job : Job) : Action Outcome := do
  match ← Action.attempt (compileFile compiler profile job) with
  | .ok () => pure (.compiled job.source job.output)
  | .error f =>
    if f.isOfFile then do
      Action.log Level.error logger s!"Failed to compile '{str job.source}': {f.message}"
      pure (.failed job.source job.output f.message)
    else throw f

/-! ### Where outputs go -/

/-- The output of a single file: as requested, inside a requested folder, or beside the source. -/
def singleOutput (v : Volume) (source : Path) (output : Option Path) (target extension : Text) :
    Path :=
  match output.filter (!·.isEmpty) with
  | none => Path.swapExtension source target extension
  | some output =>
    if v.isFolder output then
      Path.join output (Path.swapExtension (Path.base source) target extension)
    else output

/-- The output root of a folder: a folder that exists, or the folder itself. -/
def outputRoot (source : Path) (output : Option Path) : Action Path := do
  let v := (← get).volume
  match output.filter (!·.isEmpty) with
  | none => pure source
  | some output =>
    if !v.hasEntry output then throw (.path (.noOutput output))
    else if !v.isFolder output then throw (.path (.outputNotFolder output))
    else pure output

def planJobs (root output : Path) (target source : Text) (files : List Path) :
    Except Misplaced (List Job) :=
  (files.filter (Path.hasExtension · source)).mapM fun file =>
    (Path.mirror file root output target source).map (Job.mk file)

def plan (profile : Profile) (root output : Path) (files : List Path) : Action (List Job) := do
  let source ← Action.need Setting.sourceExtension profile.sourceExtension
  let target ← Action.need Setting.targetExtension profile.targetExtension
  match planJobs root output target source files with
  | .ok jobs => pure jobs
  | .error m => throw (.misplaced m)

/-! ### Batches -/

/-- Runs jobs in order. A failed outcome ends the work if `failFast` asks for it. -/
def runJobs (compiler : Compiler) (profile : Profile) (failFast : Bool) :
    List Job → Action (List (Except Failure Outcome))
  | [] => pure []
  | job :: rest => do
    let result ← Action.attempt (toOutcome compiler profile job)
    match result with
    | .ok outcome =>
      if failFast && !outcome.ok then pure [.ok outcome]
      else return .ok outcome :: (← runJobs compiler profile failFast rest)
    | .error f => return .error f :: (← runJobs compiler profile failFast rest)

def outcomesOf (results : List (Except Failure Outcome)) : Except Failure (List Outcome) :=
  results.mapM id

def runBatch (compiler : Compiler) (profile : Profile) (failFast : Bool) (jobs : List Job) :
    Action (List Outcome × Option Outcome) := do
  match outcomesOf (← runJobs compiler profile failFast jobs) with
  | .ok outcomes => pure (outcomes, if failFast then outcomes.find? (!·.ok) else none)
  | .error f => throw f

/-! ### The command -/

def compileSingle (request : Request) (profile : Profile) (compiler : Compiler) :
    Action Result := do
  let target ← Action.need Setting.targetExtension profile.targetExtension
  let extension ← Action.need Setting.sourceExtension profile.sourceExtension
  let source := request.input
  let output := singleOutput (← get).volume source request.output target extension
  Action.log Level.info logger s!"Compiling file: {str source}"
  let outcome ← toOutcome compiler profile ⟨source, output⟩
  let folder := Path.folder (← Action.absolute output)
  let _ ← Report.writeIfAsked profile folder [outcome]
  pure (.ofBatch request output [outcome] [])

def walkFiles (profile : Profile) (root : Path) : Action (List Path) := do
  let name ← Action.need Setting.statPolicy profile.statPolicy
  let policy ← Walk.policy name
  let retries ← Action.need Setting.statRetries profile.statRetries
  Walk.files policy retries root

def compileFiles (request : Request) (profile : Profile) (compiler : Compiler) (root : Path)
    (files : List Path) : Action Result := do
  let jobs ← plan profile request.input root files
  Action.log Level.debug logger
    s!"Walk found {files.length} file(s), {jobs.length} to compile."
  let failFast ← Action.need Setting.failFast profile.failFast
  let (outcomes, stopped) ← runBatch compiler profile failFast jobs
  let outcomes := Outcome.sort outcomes
  let report ← Report.writeIfAsked profile root outcomes
  let extra : Table := [("walked", .int files.length), ("error_report", .text report)]
  match stopped with
  | some o =>
    let error := s!"Batch aborted after failure in '{str o.source}': {o.error}"
    pure (.rejected error request root outcomes extra)
  | none => do
    let result := Result.ofBatch request root outcomes extra
    let compiled := Result.count outcomes "compiled"
    let errors := Result.count outcomes "errors"
    Action.log Level.info logger s!"Compile finished. Compiled: {compiled}. Errors: {errors}"
    pure result

def compileFolder (request : Request) (profile : Profile) (compiler : Compiler) :
    Action Result := do
  let root ← outputRoot request.input request.output
  Action.log Level.info logger s!"Compiling directory: {str request.input} -> {str root}"
  match ← Action.attempt (walkFiles profile request.input) with
  | .error f@(.listing ..) => do
    Action.log Level.error logger f.message
    pure (.rejected f.message request root [] [])
  | .error f => throw f
  | .ok files => compileFiles request profile compiler root files

/-- Compiles a file, or the source files below a folder. -/
def compilePath (request : Request) (profile : Profile) (compiler : Option Compiler) :
    Action Result := do
  let compiler ← match compiler with
    | some compiler => pure compiler
    | none => do loadCompiler (← Action.need Setting.compiler profile.compiler)
  let v := (← get).volume
  if v.isFile request.input then compileSingle request profile compiler
  else if v.isFolder request.input then compileFolder request profile compiler
  else throw (.path (.notCompilable request.input))

end Compile

end Inlay
