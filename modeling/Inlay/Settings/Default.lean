import Inlay.Json.Value

/-!
# Settings and their defaults

The thirteen settings in the order in which they are saved, each with its default.
-/

namespace Inlay

/-- How the walk treats an entry whose state cannot be read. -/
inductive StatPolicy where
  | skip
  | retry
  | assumeFile
  deriving DecidableEq

namespace StatPolicy

def name : StatPolicy → String
  | skip => "skip"
  | retry => "retry"
  | assumeFile => "assume_file"

def all : List StatPolicy := [skip, retry, assumeFile]

def ofName? (name : Text) : Option StatPolicy :=
  all.find? (·.name.toList == name)

theorem ofName?_name (policy : StatPolicy) : ofName? policy.name.toList = some policy := by
  cases policy <;> decide

end StatPolicy

namespace Setting

def sourceExtension : String := "source_extension"
def targetExtension : String := "target_extension"
def openTag : String := "open_tag"
def closeTag : String := "close_tag"
def targetOpenTag : String := "target_open_tag"
def targetCloseTag : String := "target_close_tag"
def encoding : String := "encoding"
def compiler : String := "compiler"
def statPolicy : String := "stat_failure_policy"
def statRetries : String := "stat_retries"
def failFast : String := "fail_fast"
def saveErrorLog : String := "save_error_log"
def errorLogName : String := "error_log_name"

/-! ### Defaults -/

def defaultSource : Text := ".tea".toList

def defaultTarget : Text := ".php".toList

def defaultEncoding : Text := "utf-8".toList

def defaultRetries : Int := 2

def defaultText (key : String) : Text :=
  ([ (sourceExtension, ".tea"), (targetExtension, ".php"), (openTag, "<?tea"), (closeTag, "?>"),
      (targetOpenTag, "<?php"), (targetCloseTag, "?>"), (encoding, "utf-8"),
      (compiler, "passthrough"), (statPolicy, "skip"),
      (errorLogName, "icedtea_errors.txt") ].lookup key).getD "" |>.toList

def defaults : Table :=
  [ (sourceExtension, .text (defaultText sourceExtension)),
    (targetExtension, .text (defaultText targetExtension)),
    (openTag, .text (defaultText openTag)),
    (closeTag, .text (defaultText closeTag)),
    (targetOpenTag, .text (defaultText targetOpenTag)),
    (targetCloseTag, .text (defaultText targetCloseTag)),
    (encoding, .text (defaultText encoding)),
    (compiler, .text (defaultText compiler)),
    (statPolicy, .text (defaultText statPolicy)),
    (statRetries, .int defaultRetries),
    (failFast, .bool false),
    (saveErrorLog, .bool false),
    (errorLogName, .text (defaultText errorLogName)) ]

end Setting

end Inlay
