import Inlay.Command.Compile

/-!
# Cleaning

A generated file is removed if its source stands beside it. Files with the target extension and
without a source are taken for hand-written and left alone.
-/

namespace Inlay.Clean

def logger : String := "icedtea.core.pipeline.clean"

def sourceOf (source target : Text) (file : Path) : Path :=
  Path.swapExtension file source target

/-- Is a file generated, as far as the other files tell? -/
def isGenerated (source target : Text) (files : List Path) (file : Path) : Bool :=
  Path.hasExtension file target && files.contains (sourceOf source target file)

def selectGenerated (source target : Text) (files : List Path) : List Path :=
  (files.filter (isGenerated source target files)).mergeSort Text.atMost

theorem mem_selectGenerated (source target : Text) (files : List Path) (file : Path) :
    file ∈ selectGenerated source target files ↔
      file ∈ files ∧ Path.hasExtension file target = true ∧
        sourceOf source target file ∈ files := by
  simp only [selectGenerated, List.mem_mergeSort, List.mem_filter, isGenerated, Bool.and_eq_true,
    List.contains_iff_mem]

variable [Host]

/-- Deals with one generated file: removes it, or only says that it would be removed. -/
def cleanFile (dryRun : Bool) (source target : Text) (file : Path) : Action Outcome := do
  let origin := sourceOf source target file
  if dryRun then
    Action.log Level.info logger s!"Would delete: {str file}"
    pure (.skipped origin file)
  else
    match ← Action.attempt (Action.removeOutput file) with
    | .ok () => do
      Action.log Level.debug logger s!"Deleted: {str file}"
      pure (.deleted origin file)
    | .error (.os e) => do
      Action.log Level.error logger s!"Failed to delete '{str file}': {e.message}"
      pure (.failed origin file e.message)
    | .error f => throw f

def cleanFiles (request : Request) (profile : Profile) (files : List Path) : Action Result := do
  let source ← Action.need Setting.sourceExtension profile.sourceExtension
  let target ← Action.need Setting.targetExtension profile.targetExtension
  let outcomes ← (selectGenerated source target files).mapM
    (cleanFile request.dryRun source target)
  let report ← Report.writeIfAsked profile request.input outcomes
  let extra : Table :=
    [ ("walked", .int files.length), ("dry_run", .bool request.dryRun),
      ("error_report", .text report) ]
  let result := Result.ofBatch request request.input outcomes extra
  let deleted := Result.count outcomes "deleted"
  let errors := Result.count outcomes "errors"
  Action.log Level.info logger s!"Clean finished. Deleted: {deleted}. Errors: {errors}"
  pure result

def cleanPath (request : Request) (profile : Profile) : Action Result := do
  let root := request.input
  if !(← get).volume.isFolder root then throw (.path (.notFolder root))
  Action.log Level.info logger s!"Cleaning generated files under: {str root}"
  match ← Action.attempt (Compile.walkFiles profile root) with
  | .error f@(.listing ..) => do
    Action.log Level.error logger f.message
    pure (.rejected f.message request root [] [])
  | .error f => throw f
  | .ok files => cleanFiles request profile files

end Inlay.Clean
