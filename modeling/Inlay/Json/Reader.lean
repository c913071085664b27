import Inlay.Json.Value
import Inlay.Number.Reading

/-!
# Reading settings files

A file is one JSON value between blanks. Names for the numbers without digits are accepted, integers
with at most `digitLimit` digits, and lists and tables that are not nested too deep. A fault is
found at a suffix of the file, from which its line and column follow.
-/

namespace Inlay.Json

inductive Reason where
  | value
  | key
  | colon
  | comma
  | extra
  | unterminated
  | control
  | escape
  | codePoint
  | mark
  deriving DecidableEq

def Reason.text : Reason → String
  | value => "Expecting value"
  | key => "Expecting property name enclosed in double quotes"
  | colon => "Expecting ':' delimiter"
  | comma => "Expecting ',' delimiter"
  | extra => "Extra data"
  | unterminated => "Unterminated string starting at"
  | control => "Invalid control character at"
  | escape => "Invalid \\escape"
  | codePoint => "Invalid \\uXXXX escape"
  | mark => "Unexpected UTF-8 BOM (decode using utf-8-sig)"

inductive Fault where
  | lacks (reason : Reason) (rest : Text)
  | hugeInteger (digits : Nat)
  | tooDeep (isTable : Bool)
  deriving DecidableEq

/-- The result of reading the start of a text: a value and the rest. -/
abbrev Reading (α : Type) := Except Fault (α × Text)

/-! ### Blanks -/

def isGap (c : Char) : Bool :=
  c == ' ' || c == '\t' || c == '\n' || c == '\r'

def skip (text : Text) : Text :=
  text.dropWhile isGap

/-! ### Strings -/

def escape? : Char → Option Char
  | '"' => some '"'
  | '\\' => some '\\'
  | '/' => some '/'
  | 'b' => some '\x08'
  | 'f' => some '\x0c'
  | 'n' => some '\n'
  | 'r' => some '\r'
  | 't' => some '\t'
  | _ => none

/-- The number of four hexadecimal digits at the start of a text that goes on after them. -/
def fourHex? : Text → Option (Nat × Text)
  | a :: b :: c :: d :: next :: rest => do
    let a ← Text.hexValue? a
    let b ← Text.hexValue? b
    let c ← Text.hexValue? c
    let d ← Text.hexValue? d
    return (0x1000 * a + 0x100 * b + 0x10 * c + d, next :: rest)
  | _ => none

theorem length_of_fourHex? {text rest : Text} {n : Nat} (h : fourHex? text = some (n, rest)) :
    rest.length < text.length := by
  match text, h with
  | a :: b :: c :: d :: next :: tail, h =>
    simp only [fourHex?, Option.bind_eq_bind, Option.bind_eq_some_iff, Option.pure_def,
      Option.some.injEq, Prod.mk.injEq] at h
    obtain ⟨_, _, _, _, _, _, _, _, _, rfl⟩ := h
    simp only [List.length_cons]
    omega
  | [], h => simp [fourHex?] at h
  | [_], h => simp [fourHex?] at h
  | [_, _], h => simp [fourHex?] at h
  | [_, _, _], h => simp [fourHex?] at h
  | [_, _, _, _], h => simp [fourHex?] at h

variable [Alphabet]

/-- The character of a code point escape after its letter: a unit, or two surrogates. -/
def codePoint? (text : Text) : Option (Char × Text) :=
  match fourHex? text with
  | none => none
  | some (unit, rest) =>
    match rest with
    | '\\' :: 'u' :: more =>
      match fourHex? more with
      | some (low, rest') =>
        if 0xd800 ≤ unit ∧ unit < 0xdc00 ∧ 0xdc00 ≤ low ∧ low < 0xe000 then
          some (Char.ofNat (0x10000 + 0x400 * (unit - 0xd800) + (low - 0xdc00)), rest')
        else some (Alphabet.ofCodePoint unit, rest)
      | none => some (Alphabet.ofCodePoint unit, rest)
    | _ => some (Alphabet.ofCodePoint unit, rest)

theorem length_of_codePoint? {text rest : Text} {c : Char} (h : codePoint? text = some (c, rest)) :
    rest.length < text.length := by
  simp only [codePoint?] at h
  split at h
  · simp at h
  · next unit first hf =>
    have h1 := length_of_fourHex? hf
    split at h
    · next more =>
      split at h
      · next low rest' hm =>
        have h2 := length_of_fourHex? hm
        simp only [List.length_cons] at h1
        split at h
        · simp only [Option.some.injEq, Prod.mk.injEq] at h
          obtain ⟨_, rfl⟩ := h
          omega
        · simp only [Option.some.injEq, Prod.mk.injEq] at h
          obtain ⟨_, rfl⟩ := h
          simpa using h1
      · simp only [Option.some.injEq, Prod.mk.injEq] at h
        obtain ⟨_, rfl⟩ := h
        exact h1
    · simp only [Option.some.injEq, Prod.mk.injEq] at h
      obtain ⟨_, rfl⟩ := h
      exact h1

/-- A string after its opening quote; `start` begins with that quote. -/
def string (start : Text) (text : Text) : Reading Text :=
  match text with
  | [] => .error (.lacks .unterminated start)
  | c :: rest =>
    if c = '"' then .ok ([], rest)
    else if c = '\\' then
      match rest with
      | [] => .error (.lacks .unterminated start)
      | e :: more =>
        if e = 'u' then
          match h : codePoint? more with
          | none => .error (.lacks .codePoint rest)
          | some (d, rest') =>
            have := length_of_codePoint? h
            (string start rest').map fun (t, r) => (d :: t, r)
        else match escape? e with
          | none => .error (.lacks .escape text)
          | some d => (string start more).map fun (t, r) => (d :: t, r)
    else if c.toNat < 0x20 then .error (.lacks .control text)
    else (string start rest).map fun (t, r) => (c :: t, r)
termination_by text.length

/-! ### Numbers -/

/-- The fraction at the start of a text: a point and at least one digit. -/
def fraction : Text → Text × Text
  | '.' :: rest =>
    let (digits, rest') := Binary64.digitRun rest
    if digits.isEmpty then ([], '.' :: rest) else ('.' :: digits, rest')
  | rest => ([], rest)

/-- The exponent at the start of a text: its letter, a sign and at least one digit. -/
def exponent : Text → Text × Text
  | [] => ([], [])
  | e :: rest =>
    if e = 'e' ∨ e = 'E' then
      let (sign, rest') := match rest with
        | '+' :: more => (['+'], more)
        | '-' :: more => (['-'], more)
        | more => ([], more)
      let (digits, rest'') := Binary64.digitRun rest'
      if digits.isEmpty then ([], e :: rest) else (e :: sign ++ digits, rest'')
    else ([], e :: rest)

/-- The whole part at the start of a text: a zero, or digits without a zero in front. -/
def whole : Text → Text × Text
  | '0' :: rest => (['0'], rest)
  | rest => Binary64.digitRun rest

def number (text : Text) : Reading Value :=
  let (negative, rest) := match text with
    | '-' :: rest => (true, rest)
    | rest => (false, rest)
  let (digits, rest) := whole rest
  if digits.isEmpty then .error (.lacks .value text)
  else
    let (part, rest) := fraction rest
    let (power, rest) := exponent rest
    if part.isEmpty ∧ power.isEmpty then
      if digits.length > digitLimit then .error (.hugeInteger digits.length)
      else
        let n : Int := Binary64.digitsValue digits
        .ok (.int (if negative then -n else n), rest)
    else
      let spelled := (if negative then ['-'] else []) ++ digits ++ part ++ power
      match Binary64.ofText? spelled with
      | some x => .ok (.real x, rest)
      | none => .error (.lacks .value text)

def names : List (String × Value) :=
  [("null", .null), ("true", .bool true), ("false", .bool false), ("NaN", .real .undefined),
    ("Infinity", .real (.infinite false)), ("-Infinity", .real (.infinite true))]

def scalar (text : Text) : Reading Value :=
  match names.find? fun (name, _) => name.toList.isPrefixOf text with
  | some (name, value) => .ok (value, text.drop name.length)
  | none => number text

/-! ### Values -/

mutual

/-- A value at the start of a text; lists and tables may be nested so deep in it. -/
def value (fuel depth : Nat) (text : Text) : Reading Value :=
  match fuel, text with
  | 0, _ => .error (.lacks .value text)
  | _ + 1, '"' :: rest => (string text rest).map fun (t, r) => (.text t, r)
  | fuel + 1, '[' :: rest =>
    match depth with
    | 0 => .error (.tooDeep false)
    | depth + 1 => match skip rest with
      | ']' :: rest => .ok (.list [], rest)
      | rest => (items fuel depth rest).map fun (vs, r) => (.list vs, r)
  | fuel + 1, '\x7b' :: rest =>
    match depth with
    | 0 => .error (.tooDeep true)
    | depth + 1 => match skip rest with
      | '\x7d' :: rest => .ok (.table [], rest)
      | rest => (entries fuel depth [] rest).map fun (es, r) => (.table es, r)
  | _, _ => scalar text

/-- The items of a list, from the first of them to the closing bracket. -/
def items (fuel depth : Nat) (text : Text) : Except Fault (List Value × Text) :=
  match fuel with
  | 0 => .error (.lacks .value text)
  | fuel + 1 => do
    let (item, rest) ← value fuel depth text
    match skip rest with
    | ']' :: rest => return ([item], rest)
    | ',' :: rest =>
      let (more, rest) ← items fuel depth (skip rest)
      return (item :: more, rest)
    | rest => .error (.lacks .comma rest)

/-- The entries of a table, from a key to the closing brace, after those of `done`. -/
def entries (fuel depth : Nat) (done : Table) (text : Text) : Except Fault (Table × Text) :=
  match fuel, text with
  | fuel + 1, '"' :: rest => do
    let (key, rest) ← string text rest
    match skip rest with
    | ':' :: rest =>
      let (item, rest) ← value fuel depth (skip rest)
      let done := Table.set (str key) item done
      match skip rest with
      | '\x7d' :: rest => return (done, rest)
      | ',' :: rest => entries fuel depth done (skip rest)
      | rest => .error (.lacks .comma rest)
    | rest => .error (.lacks .colon rest)
  | _, _ => .error (.lacks .key text)

end

/-- One value between blanks. A bracket opens a value and its first item, so two steps for each
character are enough. -/
def read (depth : Nat) (text : Text) : Except Fault Value := do
  if text.head? = some (Char.ofNat 0xfeff) then
    .error (.lacks .mark text)
  let (found, rest) ← value (2 * text.length + 1) depth (skip text)
  match skip rest with
  | [] => return found
  | rest => .error (.lacks .extra rest)

/-! ### Faults -/

/-- The place of a suffix in a file, in words. -/
def place (file rest : Text) : String :=
  let position := file.length - rest.length
  let before := file.take position
  let line := before.count '\n' + 1
  let column := (before.reverse.takeWhile (· != '\n')).length + 1
  s!"line {line} column {column} (char {position})"

def Fault.message (file : Text) : Fault → String
  | lacks reason rest => s!"{reason.text}: {place file rest}"
  | hugeInteger digits => hugeMessage digits
  | tooDeep isTable =>
    let kind := if isTable then "object" else "array"
    s!"{nestingMessage} while decoding a JSON {kind} from a unicode string"

end Inlay.Json
