import Inlay.Text.Basic

/-!
# Extensions and mirrored paths

A source file under one root is mirrored under another: the part of its path after the first root
gets the target extension and follows the second root. Roots are compared as they are spelled;
`mirror_of_append` says where a path goes.
-/

namespace Inlay

structure Misplaced where
  path : Path
  root : Path
  deriving DecidableEq

def Misplaced.message (m : Misplaced) : String :=
  s!"'{str m.path}' is not located under '{str m.root}'"

namespace Path

def isSeparator (c : Char) : Bool :=
  c == '/' || c == '\\'

def hasExtension (path extension : Text) : Bool :=
  extension.isSuffixOf path

theorem hasExtension_iff (path extension : Text) :
    hasExtension path extension = true ↔ ∃ stem, path = stem ++ extension := by
  simp only [hasExtension, List.isSuffixOf_iff_suffix]
  exact ⟨fun ⟨stem, h⟩ => ⟨stem, h.symm⟩, fun ⟨stem, h⟩ => ⟨stem, h.symm⟩⟩

def stem (name : Text) : Text :=
  let (upToPoint, _) := Text.cutLast (· == '.') name
  if upToPoint.isEmpty then name else upToPoint.dropLast

def dropExtension? (path old : Text) : Option Text :=
  if old.isEmpty then none else Text.dropSuffix? old path

/-- The path with another extension. An old extension that the path ends with is replaced as a
unit, and otherwise the last point of the last component and what follows it. -/
def swapExtension (path new old : Text) : Path :=
  match dropExtension? path old with
  | some kept => kept ++ new
  | none =>
    let (folder, name) := Text.cutLast isSeparator path
    folder ++ stem name ++ new

theorem swapExtension_append {old : Text} (h : old ≠ []) (kept new : Text) :
    swapExtension (kept ++ old) new old = kept ++ new := by
  have hd : Text.dropSuffix? old (kept ++ old) = some kept := Text.dropSuffix?_eq_some_iff.2 rfl
  simp [swapExtension, dropExtension?, h, hd]

def suffixUnder (path root : Text) : Except Misplaced Text :=
  if root.isPrefixOf path then .ok (path.drop root.length) else .error ⟨path, root⟩

theorem suffixUnder_append (root suffix : Text) :
    suffixUnder (root ++ suffix) root = .ok suffix := by
  simp [suffixUnder, List.isPrefixOf_iff_prefix]

/-- A suffix with forward separators only, and none in front. -/
def forward (suffix : Text) : Path :=
  (suffix.map fun c => if c == '\\' then '/' else c).dropWhile (· == '/')

def under (root relative : Path) : Path :=
  if root.isEmpty then relative
  else Text.trimEnd isSeparator root ++ '/' :: relative

/-- Where the source file at `path` under `root` goes under the output root. -/
def mirror (path root output target source : Text) : Except Misplaced Path :=
  (suffixUnder path root).map fun suffix =>
    under output (forward (swapExtension suffix target source))

theorem mirror_of_append (root suffix output target source : Text) :
    mirror (root ++ suffix) root output target source =
      .ok (under output (forward (swapExtension suffix target source))) := by
  simp [mirror, suffixUnder_append, Except.map]

end Path

end Inlay
