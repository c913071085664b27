import Inlay.Fragment.Basic

/-!
# Patterns

A pattern takes the beginning of a text in several ways, and `ways` lists them in the order in which
a backtracking matcher tries them. `search` finds the leftmost match and `findAll` one match after
the other; after an empty match the next one may start at the same place but has to be longer.

`Tags.pattern` is the pattern of a fragment: the opening marker, as little as possible, and the
closing marker or the end of the text.
-/

namespace Inlay

/-- What a pattern takes of a text, what its groups take, and the text after it. -/
structure Match where
  taken : Text
  groups : List Text
  after : Text

inductive Pattern where
  | literal (text : Text)
  /-- Any number of characters, line ends included, and as few as possible. -/
  | lazyAny
  | atEnd
  | either (first second : Pattern)
  | both (first second : Pattern)
  | group (inner : Pattern)

namespace Match

def next (m n : Match) : Match :=
  ⟨m.taken ++ n.taken, m.groups ++ n.groups, n.after⟩

def grouped (m : Match) : Match :=
  { m with groups := m.taken :: m.groups }

end Match

namespace Pattern

/-- The ways in which a pattern takes the beginning of a text, the preferred one first. -/
def ways : Pattern → Text → List Match
  | literal t, text => if t.isPrefixOf text then [⟨t, [], text.drop t.length⟩] else []
  | lazyAny, text => (List.range (text.length + 1)).map fun n => ⟨text.take n, [], text.drop n⟩
  | atEnd, text => if text.isEmpty then [⟨[], [], []⟩] else []
  | either p q, text => p.ways text ++ q.ways text
  | both p q, text => (p.ways text).flatMap fun m => (q.ways m.after).map m.next
  | group p, text => (p.ways text).map Match.grouped

theorem ways_both (p q : Pattern) (text : Text) :
    (both p q).ways text = (p.ways text).flatMap fun m => (q.ways m.after).map m.next := rfl

theorem ways_group (p : Pattern) (text : Text) :
    (group p).ways text = (p.ways text).map Match.grouped := rfl

theorem ways_lazyAny_cons (c : Char) (rest : Text) :
    lazyAny.ways (c :: rest) =
      ⟨[], [], c :: rest⟩ ::
        (lazyAny.ways rest).map fun m => ⟨c :: m.taken, m.groups, m.after⟩ := by
  simp only [ways, List.length_cons]
  rw [List.range_succ_eq_map]
  simp

/-- The match at the beginning of a text, which may have to take something. -/
def first? (p : Pattern) (nonEmpty : Bool) (text : Text) : Option Match :=
  (p.ways text).find? fun m => !(nonEmpty && m.taken.isEmpty)

/-- The leftmost match in a text, and the text before it. Only a match at the very beginning may
have to take something. -/
def search (p : Pattern) (nonEmpty : Bool) : Text → Option (Text × Match)
  | [] => (p.first? nonEmpty []).map fun m => ([], m)
  | c :: rest =>
    match p.first? nonEmpty (c :: rest) with
    | some m => some ([], m)
    | none => (p.search false rest).map fun (before, m) => (c :: before, m)

theorem taken_append_after {p : Pattern} {text : Text} {m : Match} (h : m ∈ p.ways text) :
    m.taken ++ m.after = text := by
  induction p generalizing text m with
  | literal t =>
    simp only [ways] at h
    split at h
    · next hp =>
      obtain ⟨rest, rfl⟩ := List.isPrefixOf_iff_prefix.1 hp
      simp only [List.mem_singleton] at h
      simp [h]
    · simp at h
  | lazyAny =>
    obtain ⟨n, _, rfl⟩ := List.mem_map.1 h
    exact List.take_append_drop n text
  | atEnd =>
    simp only [ways] at h
    split at h
    · next he =>
      simp only [List.mem_singleton] at h
      simpa [h] using (List.isEmpty_iff.1 he).symm
    · simp at h
  | either p q ihp ihq =>
    rcases List.mem_append.1 h with h | h
    · exact ihp h
    · exact ihq h
  | both p q ihp ihq =>
    obtain ⟨k, hk, hm⟩ := List.mem_flatMap.1 h
    obtain ⟨n, hn, rfl⟩ := List.mem_map.1 hm
    simp only [Match.next, List.append_assoc, ihq hn, ihp hk]
  | group p ih =>
    obtain ⟨k, hk, rfl⟩ := List.mem_map.1 h
    have hm := ih hk
    exact hm

theorem append_of_first? {p : Pattern} {nonEmpty : Bool} {text : Text} {m : Match}
    (h : p.first? nonEmpty text = some m) : m.taken ++ m.after = text :=
  taken_append_after (List.mem_of_find?_eq_some h)

theorem append_of_search {p : Pattern} {nonEmpty : Bool} {text before : Text} {m : Match}
    (h : p.search nonEmpty text = some (before, m)) : before ++ m.taken ++ m.after = text := by
  induction text generalizing nonEmpty before with
  | nil =>
    obtain ⟨k, hk, he⟩ := Option.map_eq_some_iff.1 h
    obtain ⟨rfl, rfl⟩ := Prod.mk.inj he
    exact append_of_first? hk
  | cons c rest ih =>
    simp only [search] at h
    split at h
    · next k hk =>
      obtain ⟨rfl, rfl⟩ := Prod.mk.inj (Option.some.inj h)
      exact append_of_first? hk
    · obtain ⟨⟨b, k⟩, hk, he⟩ := Option.map_eq_some_iff.1 h
      obtain ⟨rfl, rfl⟩ := Prod.mk.inj he
      simp [← ih hk]

theorem ne_nil_of_search {p : Pattern} {text before : Text} {m : Match}
    (h : p.search true text = some (before, m)) : before ++ m.taken ≠ [] := by
  have nonEmpty {t : Text} {k : Match} (hk : p.first? true t = some k) : k.taken ≠ [] := by
    simpa using List.find?_some hk
  cases text with
  | nil =>
    obtain ⟨k, hk, he⟩ := Option.map_eq_some_iff.1 h
    obtain ⟨rfl, rfl⟩ := Prod.mk.inj he
    exact nonEmpty hk
  | cons c rest =>
    simp only [search] at h
    split at h
    · next k hk =>
      obtain ⟨rfl, rfl⟩ := Prod.mk.inj (Option.some.inj h)
      exact nonEmpty hk
    · obtain ⟨⟨b, k⟩, hk, he⟩ := Option.map_eq_some_iff.1 h
      obtain ⟨rfl, rfl⟩ := Prod.mk.inj he
      simp

theorem effort_of_search {p : Pattern} {nonEmpty : Bool} {text before : Text} {m : Match}
    (h : p.search nonEmpty text = some (before, m)) :
    effort m.taken.isEmpty m.after < effort nonEmpty text := by
  have hl := congrArg List.length (append_of_search h)
  simp only [List.length_append] at hl
  have hne : nonEmpty = true → 0 < before.length + m.taken.length := by
    rintro rfl
    have hn := List.length_pos_iff.2 (ne_nil_of_search h)
    rwa [List.length_append] at hn
  have ht : m.taken.isEmpty = false → 0 < m.taken.length := fun hf =>
    List.length_pos_iff.2 (by simpa using hf)
  cases nonEmpty <;> cases hm : m.taken.isEmpty <;> simp [effort, hm] at * <;> omega

/-- Where a match stands, and what its groups took. -/
structure Found where
  start : Nat
  stop : Nat
  groups : List Text

/-- One match after the other in a text that starts at an offset. -/
def findFrom (p : Pattern) (offset : Nat) (nonEmpty : Bool) (text : Text) : List Found :=
  match h : p.search nonEmpty text with
  | none => []
  | some (before, m) =>
    have := effort_of_search h
    let start := offset + before.length
    let stop := start + m.taken.length
    ⟨start, stop, m.groups⟩ :: p.findFrom stop m.taken.isEmpty m.after
termination_by effort nonEmpty text

def findAll (p : Pattern) (text : Text) : List Found :=
  p.findFrom 0 false text

theorem findFrom_of_none {p : Pattern} {nonEmpty : Bool} {text : Text}
    (h : p.search nonEmpty text = none) (offset : Nat) :
    p.findFrom offset nonEmpty text = [] := by
  rw [findFrom]
  split
  · rfl
  · next hs => simp [h] at hs

theorem findFrom_of_some {p : Pattern} {nonEmpty : Bool} {text before : Text} {m : Match}
    (h : p.search nonEmpty text = some (before, m)) (offset : Nat) :
    p.findFrom offset nonEmpty text =
      ⟨offset + before.length, offset + before.length + m.taken.length, m.groups⟩ ::
        p.findFrom (offset + before.length + m.taken.length) m.taken.isEmpty m.after := by
  rw [findFrom]
  split
  · next hs => simp [h] at hs
  · next hs =>
    obtain ⟨rfl, rfl⟩ := Prod.mk.inj (Option.some.inj (h.symm.trans hs))
    rfl

end Pattern

/-! ### Fragments -/

/-- The inner text, and the closing marker or the end. -/
def Pattern.upTo (closeTag : Text) : Pattern :=
  .both (.group .lazyAny) (.group (.either (.literal closeTag) .atEnd))

def Tags.pattern (tags : Tags) : Pattern :=
  .both (.literal tags.openTag) (.upTo tags.closeTag)

/-- The first group is the inner text; the second is empty if no marker closes it. -/
def Fragment.ofFound (found : Pattern.Found) : Fragment where
  inner := found.groups.getD 0 []
  closed := !(found.groups.getD 1 []).isEmpty
  start := found.start
  stop := found.stop

end Inlay
