import Inlay.Text.Case
import Inlay.Text.Digit
import Inlay.Text.Word

/-!
# Log records

A record has a level, a logger and a message. A template says how a record is written: fields in
parentheses after a percent sign, with a width, and other text. A format without any field is
refused (`ofFormat?`).
-/

namespace Inlay

structure LogRecord where
  level : Int
  logger : String
  message : String
  deriving DecidableEq

namespace Level

def debug : Int := 10
def info : Int := 20
def warning : Int := 30
def error : Int := 40
def critical : Int := 50

def names : List (String × Int) :=
  [ ("DEBUG", debug), ("INFO", info), ("WARNING", warning), ("WARN", warning), ("ERROR", error),
    ("CRITICAL", critical) ]

def name (level : Int) : String :=
  match names.find? (·.2 = level) with
  | some (name, _) => name
  | none => s!"Level {level}"

/-- The level with a name in any case and between blanks; other names mean `info`. -/
def parse (name : Text) : Int :=
  match Text.basicCapitals? (Text.strip name) with
  | some capitals => (names.lookup (str capitals)).getD info
  | none => info

end Level

inductive LogField where
  | level
  | levelNumber
  | logger
  | message
  | time
  deriving DecidableEq

inductive LogPiece where
  | text (t : Text)
  /-- A field with a least width; what is missing is filled up on the right or on the left. -/
  | field (field : LogField) (fillRight : Bool) (width : Nat)
  deriving DecidableEq

abbrev LogTemplate := List LogPiece

namespace LogTemplate

def fieldNames : List (String × LogField) :=
  [ ("levelname", .level), ("levelno", .levelNumber), ("name", .logger), ("message", .message),
    ("asctime", .time) ]

def field? (text : Text) : Option (LogPiece × Text) :=
  match text with
  | '(' :: rest =>
    let name := rest.takeWhile (· != ')')
    let rest := rest.drop (name.length + 1)
    let fillRight := rest.head? == some '-'
    let rest := rest.dropWhile (· == '-')
    let width := rest.takeWhile Char.isDigit
    let rest := rest.drop width.length
    match fieldNames.lookup (str name), rest with
    | some field, 's' :: rest | some field, 'd' :: rest =>
      some (.field field fillRight ((str width).toNat?.getD 0), rest)
    | _, _ => none
  | '%' :: rest => some (.text ['%'], rest)
  | _ => none

theorem length_of_field? {text rest : Text} {piece : LogPiece}
    (h : field? text = some (piece, rest)) : rest.length ≤ text.length := by
  simp only [field?] at h
  split at h
  · next tail =>
    split at h
    · next hr =>
      simp only [Option.some.injEq, Prod.mk.injEq] at h
      obtain ⟨_, rfl⟩ := h
      have hl := congrArg List.length hr
      have hd := (List.dropWhile_sublist (p := (· == '-'))
        (l := tail.drop ((tail.takeWhile (· != ')')).length + 1))).length_le
      simp only [List.length_drop, List.length_cons] at hl hd ⊢
      omega
    · next hr =>
      simp only [Option.some.injEq, Prod.mk.injEq] at h
      obtain ⟨_, rfl⟩ := h
      have hl := congrArg List.length hr
      have hd := (List.dropWhile_sublist (p := (· == '-'))
        (l := tail.drop ((tail.takeWhile (· != ')')).length + 1))).length_le
      simp only [List.length_drop, List.length_cons] at hl hd ⊢
      omega
    · simp at h
  · simp only [Option.some.injEq, Prod.mk.injEq] at h
    obtain ⟨_, rfl⟩ := h
    simp
  · simp at h

def parse (text : Text) : LogTemplate :=
  match text with
  | [] => []
  | c :: rest =>
    if c = '%' then
      match h : field? rest with
      | some (piece, rest') =>
        have := length_of_field? h
        piece :: parse rest'
      | none => .text [c] :: parse rest
    else .text [c] :: parse rest
termination_by text.length

/-! ### Formats -/

/-- The letters that end a field, in both cases, with those that are read as one of them. -/
def conversions : Text :=
  "diouxefgcrsaDIOUXEFGCRSA%İıſ".toList

/-- The text after a number or a star, if it begins with one. -/
def afterSize (text : Text) : Text :=
  match text with
  | '*' :: rest => rest
  | _ => text.dropWhile isDecimal

def afterPrecision (text : Text) : Text :=
  match text with
  | '.' :: rest => if afterSize rest = rest then text else afterSize rest
  | _ => text

/-- Does a text begin with a field, its percent sign left out? -/
def beginsField (text : Text) : Bool :=
  match text with
  | '(' :: rest =>
    let name := rest.takeWhile isWord
    match rest.drop name.length with
    | ')' :: rest =>
      let flagged := rest.dropWhile "#0+ -".toList.contains
      let ending := (afterPrecision (afterSize flagged)).head?
      !name.isEmpty && ending.any conversions.contains
    | _ => false
  | _ => false

def holdsField : Text → Bool
  | [] => false
  | c :: rest => (c == '%' && beginsField rest) || holdsField rest

def usualFormat : Text := "%(message)s".toList

def ofFormat? (format : Text) : Option LogTemplate :=
  let format := if format.isEmpty then usualFormat else format
  if holdsField format then some (parse format) else none

/-! ### Lines -/

def pad (fillRight : Bool) (width : Nat) (text : Text) : Text :=
  let fill := List.replicate (width - text.length) ' '
  if fillRight then text ++ fill else fill ++ text

def render (template : LogTemplate) (time : Text) (record : LogRecord) : Text :=
  template.flatMap fun piece => match piece with
    | .text t => t
    | .field field fillRight width => pad fillRight width <| match field with
      | .level => (Level.name record.level).toList
      | .levelNumber => (toString record.level).toList
      | .logger => record.logger.toList
      | .message => record.message.toList
      | .time => time

end LogTemplate

end Inlay
