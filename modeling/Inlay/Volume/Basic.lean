import Inlay.Codec.Fault
import Inlay.Volume.Errno

/-!
# Volumes

A volume holds files, folders and symbolic links, each at a place: the names on the way from the
root. Places say nothing about spelling; `Volume.Lookup` leads from paths to places. What an
operation does is said by `get?` (`get?_put`, `get?_erase`).
-/

namespace Inlay

/-- The names on the way from the root to an entry. -/
abbrev Place := List Text

inductive Entry where
  | file (content : Bytes)
  | folder
  | link (target : Path)
  deriving DecidableEq

/-- The greatest lengths, in bytes, that a volume takes. -/
structure Limits where
  name : Option Nat
  path : Option Nat
  deriving DecidableEq

namespace Limits

def unbounded : Limits := ⟨none, none⟩

def usual : Limits := ⟨some 255, some 4095⟩

def exceeds (limit : Option Nat) (length : Nat) : Bool :=
  match limit with
  | some most => decide (most < length)
  | none => false

end Limits

/-- A volume, seen from a current folder. -/
structure Volume where
  entries : List (Place × Entry)
  current : Place
  limits : Limits
  deriving DecidableEq

namespace Volume

def empty (current : Place) : Volume :=
  ⟨[], current, .usual⟩

/-- What stands at a place; the root is a folder. -/
def get? (v : Volume) (place : Place) : Option Entry :=
  if place.isEmpty then some .folder else v.entries.lookup place

/-- Replaces the entry at a place among others, or adds it after them. -/
def putEntry (place : Place) (entry : Entry) : List (Place × Entry) → List (Place × Entry)
  | [] => [(place, entry)]
  | (p, e) :: rest => if p = place then (p, entry) :: rest else (p, e) :: putEntry place entry rest

def put (v : Volume) (place : Place) (entry : Entry) : Volume :=
  { v with entries := putEntry place entry v.entries }

def erase (v : Volume) (place : Place) : Volume :=
  { v with entries := v.entries.filter fun (p, _) => p ≠ place }

def childName? (folder place : Place) : Option Text :=
  match place.getLast? with
  | some name => if place.dropLast = folder then some name else none
  | none => none

def names (v : Volume) (folder : Place) : List Text :=
  v.entries.filterMap fun (place, _) => childName? folder place

/-! ### Views -/

theorem lookup_putEntry (place other : Place) (entry : Entry) (entries : List (Place × Entry)) :
    (putEntry place entry entries).lookup other =
      if other = place then some entry else entries.lookup other := by
  induction entries with
  | nil =>
    by_cases h : other = place
    · simp [putEntry, h]
    · have hb : (other == place) = false := by simpa using h
      simp [putEntry, List.lookup_cons, hb, h]
  | cons e rest ih =>
    obtain ⟨p, x⟩ := e
    simp only [putEntry]
    by_cases hp : p = place
    · subst hp
      by_cases h : other = p
      · simp [h]
      · have hb : (other == p) = false := by simpa using h
        simp [List.lookup_cons, hb, h]
    · simp only [if_neg hp, List.lookup_cons]
      by_cases h : other = p
      · subst h
        simp [hp]
      · have hb : (other == p) = false := by simpa using h
        simp only [hb, ih]

theorem get?_put {place : Place} (h : place ≠ []) (v : Volume) (other : Place) (entry : Entry) :
    (v.put place entry).get? other = if other = place then some entry else v.get? other := by
  simp only [get?, put, lookup_putEntry, List.isEmpty_iff]
  by_cases ho : other = []
  · subst ho
    simp [Ne.symm h]
  · simp [ho]

theorem lookup_filter_ne (place other : Place) (entries : List (Place × Entry)) :
    (entries.filter fun (p, _) => p ≠ place).lookup other =
      if other = place then none else entries.lookup other := by
  induction entries with
  | nil => simp
  | cons e rest ih =>
    obtain ⟨p, x⟩ := e
    by_cases hp : p = place
    · subst hp
      simp only [List.filter_cons, ne_eq, not_true_eq_false, decide_false, Bool.false_eq_true,
        if_false]
      rw [ih]
      by_cases h : other = p
      · simp [h]
      · have hb : (other == p) = false := by simpa using h
        simp [List.lookup_cons, hb]
    · simp only [List.filter_cons, ne_eq, hp, not_false_eq_true, decide_true, if_true,
        List.lookup_cons]
      by_cases h : other = p
      · subst h
        simp [hp]
      · have hb : (other == p) = false := by simpa using h
        simp only [hb]
        exact ih

theorem get?_erase {place : Place} (h : place ≠ []) (v : Volume) (other : Place) :
    (v.erase place).get? other = if other = place then none else v.get? other := by
  simp only [get?, erase, lookup_filter_ne, List.isEmpty_iff]
  by_cases ho : other = []
  · subst ho
    simp [Ne.symm h]
  · simp [ho]

end Volume

end Inlay
