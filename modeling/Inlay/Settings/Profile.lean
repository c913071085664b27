import Inlay.Settings.Check

/-!
# Settings as the commands use them

The settings of a table by type. A setting may be absent; whoever needs it says so.
-/

namespace Inlay

structure Profile where
  sourceExtension : Option Text
  targetExtension : Option Text
  openTag : Option Text
  closeTag : Option Text
  targetOpenTag : Option Text
  targetCloseTag : Option Text
  encoding : Option Text
  compiler : Option Text
  statPolicy : Option Text
  statRetries : Option Int
  failFast : Option Bool
  saveErrorLog : Option Bool
  errorLogName : Option Text

namespace Profile

def text? (table : Table) (key : String) : Option Text :=
  match table.get? key with
  | some (.text t) => some t
  | _ => none

def int? (table : Table) (key : String) : Option Int :=
  match table.get? key with
  | some (.int n) => some n
  | some (.bool b) => some (if b then 1 else 0)
  | _ => none

/-- The settings of a table; a flag is set by any value that is not empty or zero. -/
def ofTable (table : Table) : Profile where
  sourceExtension := text? table Setting.sourceExtension
  targetExtension := text? table Setting.targetExtension
  openTag := text? table Setting.openTag
  closeTag := text? table Setting.closeTag
  targetOpenTag := text? table Setting.targetOpenTag
  targetCloseTag := text? table Setting.targetCloseTag
  encoding := text? table Setting.encoding
  compiler := text? table Setting.compiler
  statPolicy := text? table Setting.statPolicy
  statRetries := int? table Setting.statRetries
  failFast := (table.get? Setting.failFast).map (·.isSet)
  saveErrorLog := (table.get? Setting.saveErrorLog).map (·.isSet)
  errorLogName := text? table Setting.errorLogName

end Profile

end Inlay
