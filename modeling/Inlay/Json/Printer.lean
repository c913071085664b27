import Inlay.Json.Value

/-!
# Writing settings files and results

A value is written over several lines, with two spaces more for every list or table around it.
Only quotes, backslashes and control characters are escaped. Bytes cannot be written: what stands
before the first of them is (`print`).
-/

namespace Inlay.Json

inductive Piece where
  | text (t : Text)
  | unwritable (typeName : String)

def encodeChar (c : Char) : Text :=
  if c = '"' then ['\\', '"']
  else if c = '\\' then ['\\', '\\']
  else if c = '\n' then ['\\', 'n']
  else if c = '\r' then ['\\', 'r']
  else if c = '\t' then ['\\', 't']
  else if c = '\x08' then ['\\', 'b']
  else if c = '\x0c' then ['\\', 'f']
  else if c.toNat < 0x20 then '\\' :: 'u' :: Text.hex 4 c.toNat
  else [c]

def encodeString (text : Text) : Text :=
  '"' :: text.flatMap encodeChar ++ ['"']

def newLine (depth : Nat) : Text :=
  '\n' :: List.replicate (2 * depth) ' '

mutual

def pieces (depth : Nat) : Value → List Piece
  | .null => [.text "null".toList]
  | .bool b => [.text (if b then "true" else "false").toList]
  | .int n => [.text (toString n).toList]
  | .real x => [.text (x.text "Infinity" "NaN").toList]
  | .text t => [.text (encodeString t)]
  | .bytes b => [.unwritable (Value.bytes b).typeName]
  | .list [] => [.text "[]".toList]
  | .list (item :: more) =>
    .text ['['] :: itemPieces (depth + 1) (item :: more) ++ [.text (newLine depth ++ [']'])]
  | .table [] => [.text "\x7b\x7d".toList]
  | .table (entry :: more) =>
    .text ['\x7b'] :: entryPieces (depth + 1) (entry :: more) ++
      [.text (newLine depth ++ ['\x7d'])]

def itemPieces (depth : Nat) : List Value → List Piece
  | [] => []
  | [item] => .text (newLine depth) :: pieces depth item
  | item :: more =>
    .text (newLine depth) :: pieces depth item ++ .text [','] :: itemPieces depth more

def entryPieces (depth : Nat) : List (String × Value) → List Piece
  | [] => []
  | [(key, value)] =>
    .text (newLine depth ++ encodeString key.toList ++ [':', ' ']) :: pieces depth value
  | (key, value) :: more =>
    .text (newLine depth ++ encodeString key.toList ++ [':', ' ']) :: pieces depth value ++
      .text [','] :: entryPieces depth more

end

/-- The texts up to the first piece that cannot be written, and the type of that piece. -/
def writable : List Piece → List Text × Option String
  | [] => ([], none)
  | .unwritable typeName :: _ => ([], some typeName)
  | .text t :: more => let (rest, stop) := writable more; (t :: rest, stop)

/-- The written value, up to something that cannot be written. -/
def print (value : Value) : Text × Option String :=
  let (parts, stop) := writable (pieces 0 value)
  (parts.flatten, stop)

end Inlay.Json
