import Inlay.Compiler.Basic
import Inlay.Text.Case

/-!
# The catalogue of modules

What a module has that a reference may name: attributes, some of which are compilers or can be made
into one, and modules inside if it is a package. Which modules can be imported depends on where the
program runs; `modules` are those that are there in any case.
-/

namespace Inlay

inductive Attribute where
  | compiler (compiler : Compiler)
  /-- A class of compilers, with the result of making a compiler from it. -/
  | maker (make : Except Failure Compiler)
  | function (call : Text → Except Failure Value)
  | plain

/-- What the import of a module ends in, if it fails. -/
inductive ImportFault where
  /-- The module says in its own words that it cannot be imported. -/
  | unavailable (text : String)
  | other (failure : Failure)

structure Module where
  name : String
  isPackage : Bool
  /-- Has it been imported before the program looks for it? -/
  isLoaded : Bool
  fault : Option ImportFault
  attributes : List (String × Attribute)

namespace Catalogue

/-! ### The compilers that belong to the program -/

def compilerClass : Attribute :=
  .maker (.error (.reference (.abstractClass "FragmentCompiler" "compile")))

def functionClass : Attribute :=
  .maker (.error (.reference (.missingArgument "CallableCompiler" "func")))

def passthroughClass : Attribute :=
  .maker (.ok .passthrough)

def ownModule (name : String) (isPackage : Bool) (attributes : List (String × Attribute)) :
    Module :=
  ⟨name, isPackage, true, none, attributes⟩

def ownModules : List Module :=
  [ ownModule "icedtea" true [("core", .plain)],
    ownModule "icedtea.core" true [("compilers", .plain)],
    ownModule "icedtea.core.compilers" true
      [ ("FragmentCompiler", compilerClass), ("CallableCompiler", functionClass),
        ("PassthroughCompiler", passthroughClass), ("base", .plain), ("passthrough", .plain),
        ("registry", .plain) ],
    ownModule "icedtea.core.compilers.base" false
      [("FragmentCompiler", compilerClass), ("CallableCompiler", functionClass)],
    ownModule "icedtea.core.compilers.passthrough" false
      [("FragmentCompiler", compilerClass), ("PassthroughCompiler", passthroughClass)],
    ownModule "icedtea.core.compilers.registry" false
      [ ("FragmentCompiler", compilerClass), ("CallableCompiler", functionClass),
        ("PassthroughCompiler", passthroughClass) ] ]

/-! ### Words -/

def wordModule : Module :=
  ⟨"string", false, true, none,
    [ ("capwords", .function fun source => .ok (.text (Text.capitalizeWords source))),
      ("digits", .plain) ]⟩

/-- The modules that are there wherever the program runs. -/
def modules : List Module :=
  ownModules ++ [wordModule]

def find? (modules : List Module) (name : Text) : Option Module :=
  modules.find? (·.name.toList == name)

end Catalogue

end Inlay
