import Inlay.Text.Alphabet
import Inlay.Text.Printable

/-!
# Quoted text

A quoted text stands between single quotes, or between double quotes if it contains single
quotes and no double ones. The quote mark in use and the backslash are written after a backslash,
and characters that are not printable by their code points.
-/

namespace Inlay.Quoted

variable [Alphabet]

def mark (text : Text) : Char :=
  if text.contains '\'' && !text.contains '"' then '"' else '\''

def encodeChar (quote c : Char) : Text :=
  if c = quote ∨ c = '\\' then ['\\', c]
  else if c = '\t' then ['\\', 't']
  else if c = '\n' then ['\\', 'n']
  else if c = '\r' then ['\\', 'r']
  else if isPrintable c then [c]
  else Text.escape (Alphabet.codePoint c)

def encode (text : Text) : Text :=
  let quote := mark text
  quote :: text.flatMap (encodeChar quote) ++ [quote]

end Inlay.Quoted

namespace Inlay

variable [Alphabet]

def quoted (text : Text) : String :=
  str (Quoted.encode text)

def quotedList (texts : List Text) : String :=
  "[" ++ ", ".intercalate (texts.map quoted) ++ "]"

end Inlay
