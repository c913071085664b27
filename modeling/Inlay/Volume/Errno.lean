import Inlay.Text.Quoted

/-!
# Errors of a file system

An operation that a file system refuses reports a number, its words, and the path that it was
given.
-/

namespace Inlay

inductive Errno where
  | notPermitted
  | noEntry
  | inputOutput
  | denied
  | busy
  | taken
  | notFolder
  | isFolder
  | noSpace
  | readOnly
  | nameTooLong
  | linkLoop
  | stale
  | quota
  deriving DecidableEq

namespace Errno

def code : Errno → Int
  | notPermitted => 1
  | noEntry => 2
  | inputOutput => 5
  | denied => 13
  | busy => 16
  | taken => 17
  | notFolder => 20
  | isFolder => 21
  | noSpace => 28
  | readOnly => 30
  | nameTooLong => 36
  | linkLoop => 40
  | stale => 116
  | quota => 122

def text : Errno → String
  | notPermitted => "Operation not permitted"
  | noEntry => "No such file or directory"
  | inputOutput => "Input/output error"
  | denied => "Permission denied"
  | busy => "Device or resource busy"
  | taken => "File exists"
  | notFolder => "Not a directory"
  | isFolder => "Is a directory"
  | noSpace => "No space left on device"
  | readOnly => "Read-only file system"
  | nameTooLong => "File name too long"
  | linkLoop => "Too many levels of symbolic links"
  | stale => "Stale file handle"
  | quota => "Disk quota exceeded"

def symbol : Errno → String
  | notPermitted => "EPERM"
  | noEntry => "ENOENT"
  | inputOutput => "EIO"
  | denied => "EACCES"
  | busy => "EBUSY"
  | taken => "EEXIST"
  | notFolder => "ENOTDIR"
  | isFolder => "EISDIR"
  | noSpace => "ENOSPC"
  | readOnly => "EROFS"
  | nameTooLong => "ENAMETOOLONG"
  | linkLoop => "ELOOP"
  | stale => "ESTALE"
  | quota => "EDQUOT"

def all : List Errno :=
  [notPermitted, noEntry, inputOutput, denied, busy, taken, notFolder, isFolder, noSpace,
    readOnly, nameTooLong, linkLoop, stale, quota]

def ofSymbol? (symbol : String) : Option Errno :=
  all.find? (·.symbol == symbol)

end Errno

structure OsError where
  code : Int
  text : String
  path : Option Path
  deriving DecidableEq

namespace OsError

def of (errno : Errno) (path : Path) : OsError :=
  ⟨errno.code, errno.text, some path⟩

def message [Alphabet] (e : OsError) : String :=
  s!"[Errno {e.code}] {e.text}" ++
    match e.path with
    | some path => ": " ++ quoted path
    | none => ""

end OsError

end Inlay
