import Inlay.Compiler.Catalogue
import Inlay.Host

/-!
# Resolving references to compilers

A reference is a registered name, or a module and an attribute with a colon between them.
-/

namespace Inlay

abbrev Registry := List (Text × Compiler)

namespace Registry

def initial : Registry :=
  [("passthrough".toList, .passthrough)]

def register (name : Text) (compiler : Compiler) (registry : Registry) : Registry :=
  (name, compiler) :: registry.filter fun (n, _) => n ≠ name

def names (registry : Registry) : List Text :=
  (registry.map (·.1)).mergeSort Text.atMost

end Registry

/-- What the import of a module fails with, where it is one of those around the module that is
wanted, or that module. -/
def ImportFault.failure (wanted : Text) : ImportFault → Failure
  | unavailable text => .reference (.notImported wanted text)
  | other failure => failure

namespace Catalogue

/-- The names of the packages around a module, and its own name, outermost first. -/
def outward (name : Text) : List Text :=
  let pieces := Text.split '.' name
  (List.range pieces.length).map fun n => Text.join '.' (pieces.take (n + 1))

def isLoaded (modules : List Module) (name : Text) : Bool :=
  ((find? modules name).map (·.isLoaded)).getD false

/-- How many imports stand around each other when a module is imported: one for itself and for every
package around it, up to the innermost that has been imported before. -/
def depth (modules : List Module) (name : Text) : Nat :=
  ((outward name).reverse.takeWhile (!isLoaded modules ·)).length

def enter (modules : List Module) (wanted : Text) (parent : Option Module) :
    List Text → Except Failure Unit
  | [] => .ok ()
  | name :: rest =>
    match find? modules name with
    | some m => match m.fault with
      | some fault => .error (fault.failure wanted)
      | none => enter modules wanted (some m) rest
    | none => match parent with
      | some p =>
        .error (.reference (if p.isPackage then .noModule wanted name
          else .noPackage wanted name p.name.toList))
      | none => .error (.reference (.noModule wanted name))

def load [Host] (modules : List Module) (name : Text) : Except Failure Module := do
  if name.head? = some '.' then .error (.reference (.relativeModule name))
  if name.isEmpty then .error (.reference .emptyModule)
  if Host.importDepth < depth modules name then .error (.reference .tooDeep)
  enter modules name none (outward name)
  match find? modules name with
  | some m => .ok m
  | none => .error (.reference (.noModule name name))

end Catalogue

namespace Compiler

def ofAttribute (reference : Text) : Attribute → Except Failure Compiler
  | .compiler compiler => .ok compiler
  | .maker make => make
  | .function call => .ok (.ofFunction call reference)
  | .plain => .error (.reference (.notCallable reference))

/-- The compiler that a reference stands for where these are the modules that can be imported, and
whether it came from one of them. -/
def resolve [Host] (modules : List Module) (registry : Registry) (reference : Text) :
    Except Failure (Compiler × Bool) :=
  let key := Text.strip reference
  match registry.lookup key with
  | some compiler => .ok (compiler, false)
  | none => match Text.cutFirst [':'] key with
    | none => .error (.reference (.unknownName reference registry.names))
    | some (moduleName, attributeName) =>
      match Catalogue.load modules moduleName with
      | .error f => .error f
      | .ok m => match m.attributes.lookup (str attributeName) with
        | none => .error (.reference (.noAttribute moduleName attributeName))
        | some member => (ofAttribute key member).map (·, true)

end Compiler

end Inlay
