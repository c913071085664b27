import Inlay.Compiler.Basic
import Inlay.Fragment.Basic

/-!
# Compiled texts

A host text is compiled fragment by fragment in order. Gaps stay as they are, markers are replaced
by those of generated files, and a rejected fragment ends the work with its place.
-/

namespace Inlay

structure Rendered where
  gap : Text
  output : Value
  closed : Bool

/-- A failure of the compiler with the place of the fragment. A fault that already has a line
keeps its place, and one that has a file keeps its file. -/
def locate (file : Path) (index line : Nat) : Failure → Failure
  | .fragment f =>
    let f := if f.line.isNone then { f with index := index, line := some line } else f
    let f := if f.file.isNone && !file.isEmpty then { f with file := some file } else f
    .fragment f
  | .rejected kind text =>
    .fragment
      { text := text
        index := index
        line := some line
        file := if file.isEmpty then none else some file
        cause := some kind }
  | other => other

/-- Compiles segments in order, the first of them with the given index and with its gap starting
on the given line. The compiler may keep a state of its own. -/
def compileSegments {m : Type → Type} [Monad m] (call : Text → m (Except Failure Value))
    (tags : Tags) (file : Path) (index line : Nat) :
    List Segment → m (Except Failure (List Rendered))
  | [] => pure (.ok [])
  | s :: rest => do
    let line := line + Text.countLines s.gap
    match ← call s.inner with
    | .error f => pure (.error (locate file index line f))
    | .ok output =>
      let next := line + Text.countLines (s.body tags.openTag tags.closeTag)
      let more ← compileSegments call tags file (index + 1) next rest
      pure (more.map (⟨s.gap, output, s.closed⟩ :: ·))

def Rendered.parts (tags : Tags) (r : Rendered) : List Value :=
  [.text r.gap, .text tags.targetOpen, r.output] ++
    if r.closed then [.text tags.targetClose] else []

/-- The text of some parts, the first of them with the given index. -/
def joinParts (index : Nat) : List Value → Except Failure Text
  | [] => .ok []
  | .text t :: rest => (joinParts (index + 1) rest).map (t ++ ·)
  | other :: _ => .error (.notText index other.typeName)

/-- Compiles the fragments of a text, by a compiler that may keep a state. -/
def transformWith {m : Type → Type} [Monad m] (call : Text → m (Except Failure Value))
    (tags : Tags) (file : Path) (text : Text) : m (Except Failure Text) := do
  let (segments, tail) := segments tags text
  let rendered ← compileSegments call tags file 0 1 segments
  pure (rendered.bind fun rs => joinParts 0 (rs.flatMap (·.parts tags) ++ [.text tail]))

/-- Compiles the fragments of a text. -/
def transform (compiler : Compiler) (tags : Tags) (file : Path) (text : Text) :
    Except Failure Text :=
  Id.run (transformWith (fun source => pure (compiler.compile source)) tags file text)

end Inlay
