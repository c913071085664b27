import Inlay.Failure

/-!
# Fragment compilers

A compiler turns the inner text of a fragment into a value, which should be a text, or rejects
it. A plain function becomes a compiler that leaves the empty text alone (`ofFunction`).
-/

namespace Inlay

structure Compiler where
  typeName : String
  name : Text
  compile : Text → Except Failure Value

namespace Compiler

def passthrough : Compiler where
  typeName := "PassthroughCompiler"
  name := "passthrough".toList
  compile source := .ok (.text source)

def ofFunction (function : Text → Except Failure Value) (reference : Text) : Compiler where
  typeName := "CallableCompiler"
  name := reference
  compile source := if source.isEmpty then .ok (.text []) else function source

end Compiler

end Inlay
