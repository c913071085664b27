import Inlay.Codec.Fault
import Inlay.Number.Reading
import Inlay.Number.Shortest
import Inlay.Text.Quoted

/-!
# Values

A setting may hold any value that a settings file can spell, and bytes. A table keeps its keys
in the order in which they were first set (`keys_set`), with the value set last (`get?_set_self`).
-/

namespace Inlay

/-- A value of a setting. -/
inductive Value where
  | null
  | bool (b : Bool)
  | int (n : Int)
  | real (x : Binary64)
  | text (t : Text)
  | bytes (b : Bytes)
  | list (items : List Value)
  | table (entries : List (String × Value))

abbrev Table := List (String × Value)

namespace Table

def get? (table : Table) (key : String) : Option Value :=
  table.lookup key

def keys (table : Table) : List String :=
  table.map (·.1)

/-- Sets a key, in its old place if it has one and at the end otherwise. -/
def set (key : String) (value : Value) : Table → Table
  | [] => [(key, value)]
  | (k, v) :: rest => if k = key then (key, value) :: rest else (k, v) :: set key value rest

def update (table others : Table) : Table :=
  others.foldl (fun t (key, value) => set key value t) table

def without (table : Table) (keys : List String) : Table :=
  table.filter fun (key, _) => !keys.contains key

theorem get?_set_self (key : String) (value : Value) (table : Table) :
    (set key value table).get? key = some value := by
  induction table with
  | nil => simp [set, get?]
  | cons e rest ih =>
    obtain ⟨k, v⟩ := e
    simp only [set]
    split
    · simp [get?]
    · next h =>
      simp only [get?] at ih ⊢
      rw [List.lookup_cons]
      have hk : (key == k) = false := by simpa using fun e => h e.symm
      simp [hk, ih]

theorem get?_set_of_ne {key other : String} (h : other ≠ key) (value : Value) (table : Table) :
    (set key value table).get? other = table.get? other := by
  induction table with
  | nil =>
    have ho : (other == key) = false := by simpa using h
    simp [set, get?, List.lookup_cons, ho]
  | cons e rest ih =>
    obtain ⟨k, v⟩ := e
    simp only [set]
    split
    · next hk =>
      subst hk
      have ho : (other == k) = false := by simpa using h
      simp [get?, List.lookup_cons, ho]
    · simp only [get?] at ih ⊢
      rw [List.lookup_cons, List.lookup_cons, ih]

theorem keys_set (key : String) (value : Value) (table : Table) :
    (set key value table).keys = if key ∈ table.keys then table.keys else table.keys ++ [key] := by
  induction table with
  | nil => simp [set, keys]
  | cons e rest ih =>
    obtain ⟨k, v⟩ := e
    simp only [set]
    split
    · next hk => simp [keys, hk]
    · next hk =>
      simp only [keys, List.map_cons, List.mem_cons] at ih ⊢
      rw [ih]
      have hk' : key ≠ k := fun e => hk e.symm
      by_cases hm : key ∈ List.map (·.1) rest <;> simp [hk', hm]

end Table

namespace Value

/-! ### Names of types -/

def typeName : Value → String
  | null => "NoneType"
  | bool _ => "bool"
  | int _ => "int"
  | real _ => "float"
  | text _ => "str"
  | bytes _ => "bytes"
  | list _ => "list"
  | table _ => "dict"

/-! ### Display -/

variable [Alphabet]

def displayBool (b : Bool) : String :=
  if b then "True" else "False"

def displayBytes (bytes : Bytes) : String :=
  let chars := bytes.map fun b => Char.ofNat b.val
  let quote := Quoted.mark chars
  let one (c : Char) : Text :=
    if c.toNat < 0x7f then Quoted.encodeChar quote c else '\\' :: 'x' :: Text.hex 2 c.toNat
  "b" ++ str (quote :: chars.flatMap one ++ [quote])

mutual

def display : Value → String
  | null => "None"
  | bool b => displayBool b
  | int n => toString n
  | real x => x.text "inf" "nan"
  | text t => quoted t
  | bytes b => displayBytes b
  | list items => "[" ++ displayItems items ++ "]"
  | table entries => "\x7b" ++ displayEntries entries ++ "\x7d"

def displayItems : List Value → String
  | [] => ""
  | [item] => display item
  | item :: items => display item ++ ", " ++ displayItems items

def displayEntries : List (String × Value) → String
  | [] => ""
  | [(key, value)] => quoted key.toList ++ ": " ++ display value
  | (key, value) :: entries =>
    quoted key.toList ++ ": " ++ display value ++ ", " ++ displayEntries entries

end

/-- What ends the display of a value. -/
inductive DisplayFault where
  /-- An integer with more digits than are ever displayed. -/
  | overlong
  | tooDeep
  deriving DecidableEq

def DisplayFault.message : DisplayFault → String
  | overlong => overlongMessage
  | tooDeep => nestingMessage ++ " while getting the repr of an object"

mutual

/-- What ends the display of a value where values may be nested so deep. -/
def displayFault? : (depth : Nat) → Value → Option DisplayFault
  | 0, _ => some .tooDeep
  | _ + 1, int n =>
    if digitLimit < (Nat.toDigits 10 n.natAbs).length then some .overlong else none
  | depth + 1, list items => itemsFault? depth items
  | depth + 1, table entries => entriesFault? depth entries
  | _ + 1, null | _ + 1, bool _ | _ + 1, real _ | _ + 1, text _ | _ + 1, bytes _ => none

def itemsFault? (depth : Nat) : List Value → Option DisplayFault
  | [] => none
  | item :: items => (displayFault? depth item).or (itemsFault? depth items)

def entriesFault? (depth : Nat) : List (String × Value) → Option DisplayFault
  | [] => none
  | (_, value) :: entries => (displayFault? depth value).or (entriesFault? depth entries)

end

/-- Does a value count as set? Empty and zero values do not. -/
def isSet : Value → Bool
  | null => false
  | bool b => b
  | int n => n != 0
  | real x => !x.isZero
  | text t => !t.isEmpty
  | bytes b => !b.isEmpty
  | list items => !items.isEmpty
  | table entries => !entries.isEmpty

end Value

end Inlay
