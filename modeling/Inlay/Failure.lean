import Inlay.Json.Reader
import Inlay.Path.Extension
import Inlay.Path.Refusal
import Inlay.Settings.Check
import Inlay.Volume.Errno

/-!
# Failures

Everything that can end a step of a command, by cause. `message` puts a failure into words, and
its cause decides who deals with it: a failure of a file is recorded and the batch goes on
(`isOfFile`), a refusal is reported by the command line (`isRefusal`).
-/

namespace Inlay

inductive RejectionKind where
  | general
  | indentation
  deriving DecidableEq

def RejectionKind.name : RejectionKind → String
  | general => "SyntaxError"
  | indentation => "IndentationError"

structure FragmentFault where
  text : String
  /-- The position of the fragment among those of its file, from zero. -/
  index : Int
  /-- The line of the opening marker, from one. -/
  line : Option Int
  file : Option Path
  /-- What the compiler itself reported, if it did not know about fragments. -/
  cause : Option RejectionKind
  deriving DecidableEq

def FragmentFault.message (f : FragmentFault) : String :=
  let place := s!"fragment #{f.index + 1}" ++
    match f.line with
    | some line => s!" (line {line})"
    | none => ""
  let place := match f.file with
    | some file => if file.isEmpty then place else s!"{str file}: {place}"
    | none => place
  s!"{place}: {f.text}"

inductive PathFault where
  | notCompilable (path : Path)
  | noOutput (path : Path)
  | outputNotFolder (path : Path)
  | notFolder (path : Path)
  | missing (path : Path)
  | other (path : Path) (text : String)
  deriving DecidableEq

namespace PathFault

def path : PathFault → Path
  | notCompilable p | noOutput p | outputNotFolder p | notFolder p | missing p | other p _ => p

def message : PathFault → String
  | notCompilable p =>
    s!"Invalid path '{str p}': only files and directories can be compiled."
  | noOutput p => s!"The output path {str p} does not exist."
  | outputNotFolder p => s!"The output path {str p} is not a directory."
  | notFolder p => s!"{str p} is not a directory."
  | missing p => s!"The path {str p} does not exist"
  | other _ text => text

end PathFault

inductive ReferenceFault where
  | unknownName (reference : Text) (known : List Text)
  | noModule (name : Text) (missing : Text)
  | noPackage (name : Text) (missing parent : Text)
  | notImported (name : Text) (text : String)
  | emptyModule
  | relativeModule (name : Text)
  | noAttribute (name member : Text)
  | notCallable (reference : Text)
  | abstractClass (name : String) (method : String)
  | missingArgument (name : String) (argument : String)
  | tooDeep
  deriving DecidableEq

def ReferenceFault.message [Alphabet] : ReferenceFault → String
  | unknownName reference known =>
    s!"Unknown compiler '{str reference}'. Use one of {quotedList known} " ++
      "or a 'module:attribute' reference."
  | noModule name missing =>
    s!"Cannot import compiler module '{str name}': No module named {quoted missing}"
  | noPackage name missing parent =>
    s!"Cannot import compiler module '{str name}': No module named {quoted missing}; " ++
      s!"{quoted parent} is not a package"
  | notImported name text => s!"Cannot import compiler module '{str name}': {text}"
  | emptyModule => "Empty module name"
  | relativeModule name =>
    "the 'package' argument is required to perform a relative import for " ++ quoted name
  | noAttribute name member =>
    s!"Module '{str name}' has no attribute '{str member}'"
  | notCallable reference => s!"'{str reference}' is neither a FragmentCompiler nor a callable"
  | abstractClass name method =>
    s!"Can't instantiate abstract class {name} with abstract method {method}"
  | missingArgument name argument =>
    s!"{name}.__init__() missing 1 required positional argument: '{argument}'"
  | tooDeep => nestingMessage

/-- Why a step of a command ends. -/
inductive Failure where
  | os (e : OsError)
  | codec (f : CodecFault)
  | unknownEncoding (name : Text)
  | notTextEncoding (name : Text)
  /-- The name of an encoding holds a zero character. -/
  | zeroInName
  | noPath (refusal : PathRefusal)
  | rejected (kind : RejectionKind) (text : String)
  | fragment (f : FragmentFault)
  | path (f : PathFault)
  | listing (folder : Path) (detail : Option String)
  | state (entry : Path) (detail : Option String)
  | missingKey (key : Text)
  | misplaced (m : Misplaced)
  | reference (f : ReferenceFault)
  | unknownPolicy (name : Text)
  | settings (f : SettingsFault)
  | unreadable (fault : Json.Fault)
  | notText (index : Nat) (typeName : String)
  | unwritable (typeName : String)
  | lacksMember (typeName member : String)
  | crash (text : String)
  | badValue (text : String)
  | badText (text : String)
  /-- The interpreter is to be left with a status, after a complaint. -/
  | leave (status : Nat) (complaint : String)

namespace Failure

variable [Alphabet]

def message : Failure → String
  | os e => e.message
  | codec f => f.message
  | unknownEncoding name => s!"unknown encoding: {str name}"
  | notTextEncoding name =>
    s!"'{str name}' is not a text encoding; use codecs.open() to handle arbitrary codecs"
  | zeroInName => "embedded null character"
  | noPath (.unencodable fault) => fault.message
  | noPath .zero => "embedded null byte"
  | rejected _ text => text
  | fragment f => f.message
  | path f => f.message
  | listing folder detail =>
    s!"Cannot list directory '{str folder}'" ++ (detail.map (": " ++ ·)).getD ""
  | state entry detail => s!"Cannot stat '{str entry}'" ++ (detail.map (": " ++ ·)).getD ""
  | missingKey key => quoted key
  | misplaced m => m.message
  | reference f => f.message
  | unknownPolicy name => s!"{quoted name} is not a valid StatFailurePolicy"
  | settings f => f.message
  | unreadable fault => fault.message []
  | notText index typeName =>
    s!"sequence item {index}: expected str instance, {typeName} found"
  | unwritable typeName => s!"Object of type {typeName} is not JSON serializable"
  | lacksMember typeName member => s!"'{typeName}' object has no attribute '{member}'"
  | crash text => text
  | badValue text => text
  | badText text => text
  | leave status _ => toString status

def osKind (code : Int) : String :=
  ([ (1, "PermissionError"), (2, "FileNotFoundError"), (13, "PermissionError"),
      (17, "FileExistsError"), (20, "NotADirectoryError"),
      (21, "IsADirectoryError") ].lookup code).getD "OSError"

def kind : Failure → String
  | os e => osKind e.code
  | codec (.undecodable ..) => "UnicodeDecodeError"
  | codec (.unencodable ..) | noPath (.unencodable _)
  | settings (.unencodableName _) => "UnicodeEncodeError"
  | codec .unmarkedOrder | codec (.other _) => "UnicodeError"
  | unknownEncoding _ | notTextEncoding _ => "LookupError"
  | rejected kind _ => kind.name
  | fragment _ => "FragmentSyntaxError"
  | path _ => "PathError"
  | listing .. => "ListingError"
  | state .. => "StatError"
  | missingKey _ => "KeyError"
  | reference (.relativeModule _) | reference (.abstractClass ..)
  | reference (.missingArgument ..) => "TypeError"
  | reference .tooDeep | settings (.undisplayable .tooDeep)
  | unreadable (.tooDeep _) => "RecursionError"
  | settings (.refused finding) => if finding.isTypeFault then "TypeError" else "ValueError"
  | notText .. | unwritable _ => "TypeError"
  | lacksMember .. => "AttributeError"
  | crash _ => "RuntimeError"
  | badText _ => "UnicodeError"
  | leave .. => "SystemExit"
  | zeroInName | noPath .zero | misplaced _ | reference _ | unknownPolicy _ | settings _
  | unreadable _ | badValue _ => "ValueError"

/-- The kind of a failure with the module that it belongs to. -/
def qualifiedKind (f : Failure) : String :=
  match f with
  | fragment _ | path _ | listing .. | state .. => "icedtea.domain.errors." ++ f.kind
  | _ => f.kind

/-- Is it a failure of one file, which a batch records and survives? -/
def isOfFile : Failure → Bool
  | os _ | codec _ | noPath (.unencodable _) | unknownEncoding _ | notTextEncoding _
  | rejected .. | fragment _ | missingKey _ | badText _ => true
  | _ => false

/-- Is it a failure of the whole program, as opposed to a value that it cannot use? -/
def isProgramFault : Failure → Bool
  | path _ | listing .. | state .. => true
  | _ => false

/-- Does it leave the interpreter? Whoever survives exceptions does not survive that. -/
def leaves : Failure → Bool
  | leave .. => true
  | _ => false

def isValueFault (f : Failure) : Bool :=
  ["ValueError", "UnicodeError", "UnicodeDecodeError", "UnicodeEncodeError"].contains f.kind

def isRefusal (f : Failure) : Bool :=
  f.isProgramFault || f.isValueFault

def report (f : Failure) : String :=
  if f.message.isEmpty then f.qualifiedKind ++ "\n" else s!"{f.qualifiedKind}: {f.message}\n"

end Failure

end Inlay
