import Inlay.Text.Basic

/-!
# Paths with forward separators

Joining and splitting paths, their normal form without empty components and points, and the
expansion of home directories and variables. Nothing here looks at a file system.
-/

namespace Inlay

abbrev Environment := List (String × Text)

namespace Path

/-! ### Joining and splitting -/

def isAbsolute (path : Path) : Bool :=
  path.head? == some '/'

def join (folder path : Path) : Path :=
  if path.isAbsolute ∨ folder.isEmpty then path
  else if folder.getLast? = some '/' then folder ++ path
  else folder ++ '/' :: path

/-- The text up to and including the last separator, and the text after it. -/
def cut (path : Path) : Path × Path :=
  Text.cutLast (· == '/') path

/-- The folder of a path, without separators at its end unless it consists of them. -/
def folder (path : Path) : Path :=
  let lead := (cut path).1
  if lead.all (· == '/') then lead else Text.trimEnd (· == '/') lead

def base (path : Path) : Path :=
  (cut path).2

def components (path : Path) : List Text :=
  (Text.split '/' path).filter (!·.isEmpty)

/-! ### Normal form -/

def here : Text := ['.']

def above : Text := ['.', '.']

/-- Follows components from the ones in `done` (last first). -/
def climb (rooted : Bool) (done : List Text) : List Text → List Text
  | [] => done.reverse
  | c :: rest =>
    if c.isEmpty ∨ c = here then climb rooted done rest
    else if c = above then
      match done with
      | [] => climb rooted (if rooted then [] else [above]) rest
      | d :: ds => climb rooted (if d = above then above :: d :: ds else ds) rest
    else climb rooted (c :: done) rest

/-- The separators in front of a path: two are kept, and more count as one. -/
def lead (path : Path) : Path :=
  let n := (path.takeWhile (· == '/')).length
  if n = 0 then [] else if n = 2 then ['/', '/'] else ['/']

/-- The path without empty components, points, and folders that are left again. -/
def normalize (path : Path) : Path :=
  let lead := lead path
  let result := lead ++ Text.join '/' (climb (!lead.isEmpty) [] (Text.split '/' path))
  if result.isEmpty then here else result

def absolute (folder path : Path) : Path :=
  normalize (if path.isAbsolute then path else join folder path)

/-- The two lists without what they have in common at their start. -/
def diverge : List Text → List Text → List Text × List Text
  | a :: as, b :: bs => if a = b then diverge as bs else (a :: as, b :: bs)
  | as, bs => (as, bs)

/-- The way from one folder to a path, both in absolute form. -/
def relative (path start : Path) : Path :=
  let (up, down) := diverge (components start) (components path)
  match List.replicate up.length above ++ down with
  | [] => here
  | steps => Text.join '/' steps

/-! ### Expansion -/

/-- The path with the home directory in the place of a tilde in front. Homes of other users are
not known. -/
def expandHome (env : Environment) (path : Path) : Path :=
  match path with
  | '~' :: rest =>
    if rest.isEmpty ∨ rest.head? = some '/' then
      match env.lookup "HOME" with
      | none => path
      | some home =>
        let result := Text.trimEnd (· == '/') home ++ rest
        if result.isEmpty then ['/'] else result
    else path
  | _ => path

def isNameChar (c : Char) : Bool :=
  c.isAlphanum || c == '_'

/-- The name of a variable after its dollar sign, and the text after it: letters, digits and
underscores, or anything in braces. -/
def nextName? (text : Text) : Option (Text × Text) :=
  match text with
  | '\x7b' :: rest =>
    let name := rest.takeWhile (· != '\x7d')
    if name.length < rest.length then some (name, rest.drop (name.length + 1)) else none
  | _ =>
    let name := text.takeWhile isNameChar
    if name.isEmpty then none else some (name, text.drop name.length)

theorem length_of_nextName? {text name rest : Text} (h : nextName? text = some (name, rest)) :
    rest.length ≤ text.length := by
  simp only [nextName?] at h
  split at h
  all_goals
    split at h
    all_goals
      simp only [Option.some.injEq, Prod.mk.injEq, reduceCtorEq] at h
    try
      obtain ⟨_, rfl⟩ := h
      simp only [List.length_drop, List.length_cons]
      omega

/-- The text with the values of variables in their places. Values are not expanded again, and
unknown variables are left alone. -/
def expandVariables (env : Environment) (text : Text) : Text :=
  match text with
  | [] => []
  | c :: rest =>
    if c = '$' then
      match h : nextName? rest with
      | none => c :: expandVariables env rest
      | some (name, rest') =>
        have := length_of_nextName? h
        let kept := c :: rest.take (rest.length - rest'.length)
        (env.lookup (str name)).getD kept ++ expandVariables env rest'
    else c :: expandVariables env rest
termination_by text.length

end Path

end Inlay
