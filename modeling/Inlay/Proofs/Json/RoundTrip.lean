import Inlay.Proofs.Json.Strings
import Inlay.Proofs.Settings.Tables

/-!
# Values that are read back

Every plain value is read back from the text that is written for it (`read_print`): an item after
another, as long as what follows a value does not go on a number. The reader's fuel is bounded by
the length of what it reads.
-/

namespace Inlay

/-! ### Plain values -/

mutual

/-- Values without fractions and bytes, without integers that have too many digits, without tables
that have a key twice, and with lists and tables nested at most so deep. -/
def Value.Plain : (limit : Nat) → Value → Prop
  | _, .null | _, .bool _ | _, .text _ => True
  | _, .int n => n.natAbs < digitBound
  | _, .real _ | _, .bytes _ | 0, .list _ | 0, .table _ => False
  | limit + 1, .list items => Value.PlainItems limit items
  | limit + 1, .table entries => (Table.keys entries).Nodup ∧ Value.PlainEntries limit entries

def Value.PlainItems (limit : Nat) : List Value → Prop
  | [] => True
  | item :: more => item.Plain limit ∧ Value.PlainItems limit more

def Value.PlainEntries (limit : Nat) : List (String × Value) → Prop
  | [] => True
  | (_, value) :: more => value.Plain limit ∧ Value.PlainEntries limit more

end

theorem Value.plainEntries_iff {limit : Nat} {entries : List (String × Value)} :
    PlainEntries limit entries ↔ ∀ e ∈ entries, e.2.Plain limit := by
  induction entries with
  | nil => simp [PlainEntries]
  | cons e rest ih =>
    obtain ⟨key, value⟩ := e
    simp only [PlainEntries, ih, List.forall_mem_cons]

namespace Json

theorem str_toList (key : String) : str key.toList = key := String.ofList_toList

/-! ### Pieces -/

/-- The pieces can all be written, and this is the text. -/
def Spells (ps : List Piece) (t : Text) : Prop :=
  ∃ parts, writable ps = (parts, none) ∧ parts.flatten = t

theorem spells_nil : Spells [] [] := ⟨[], rfl, rfl⟩

theorem Spells.text {ps : List Piece} {t : Text} (h : Spells ps t) (a : Text) :
    Spells (.text a :: ps) (a ++ t) := by
  obtain ⟨parts, hparts, rfl⟩ := h
  exact ⟨a :: parts, by rw [writable, hparts], rfl⟩

theorem Spells.append {ps qs : List Piece} {t u : Text} (h : Spells ps t) (h' : Spells qs u) :
    Spells (ps ++ qs) (t ++ u) := by
  obtain ⟨parts, hparts, rfl⟩ := h
  induction ps generalizing parts with
  | nil =>
    obtain ⟨rfl, _⟩ := Prod.mk.inj hparts
    exact h'
  | cons p ps ih =>
    cases p with
    | unwritable typeName => simp [writable] at hparts
    | text a =>
      simp only [writable, Prod.mk.injEq] at hparts
      obtain ⟨rfl, hstop⟩ := hparts
      rw [List.flatten_cons, List.append_assoc]
      exact (ih _ (Prod.ext rfl hstop)).text a

theorem spells_singleton (a : Text) : Spells [.text a] a := by
  have h := spells_nil.text a
  rwa [List.append_nil] at h

/-! ### Beginnings -/

/-- How a written value begins: not with a blank, nor with what closes a list. -/
def Begins (t : Text) : Prop :=
  ∃ c rest, t = c :: rest ∧ isGap c = false ∧ c ≠ ']' ∧ c ≠ Char.ofNat 0xfeff

theorem Begins.append {t : Text} (h : Begins t) (u : Text) : Begins (t ++ u) := by
  obtain ⟨c, rest, rfl, hc⟩ := h
  exact ⟨c, rest ++ u, rfl, hc⟩

theorem Begins.skip_eq {t : Text} (h : Begins t) : skip t = t := by
  obtain ⟨c, rest, rfl, hc, _⟩ := h
  rw [skip, List.dropWhile_cons, if_neg (by simp [hc])]

theorem skip_newLine (depth : Nat) (t : Text) : skip (newLine depth ++ t) = skip t := by
  have hall : ∀ c ∈ newLine depth, isGap c = true := by
    intro c hc
    rcases List.mem_cons.1 hc with rfl | hc
    · rfl
    · rw [List.eq_of_mem_replicate hc]
      rfl
  rw [skip, skip, List.dropWhile_append_of_pos hall]

theorem ends_newLine (depth : Nat) (t : Text) : Ends (newLine depth ++ t) := by
  intro c hc
  obtain rfl : '\n' = c := by simpa [newLine] using hc
  decide

theorem ends_comma (t : Text) : Ends (',' :: t) := by
  intro c hc
  obtain rfl : ',' = c := by simpa using hc
  decide

/-! ### Scalars -/

theorem scalar_null (rest : Text) : scalar ("null".toList ++ rest) = .ok (.null, rest) := rfl

theorem scalar_bool (b : Bool) (rest : Text) :
    scalar ((if b then "true" else "false").toList ++ rest) = .ok (.bool b, rest) := by
  cases b <;> rfl

/-- No name starts with a digit, and none with a digit after a sign. -/
theorem find?_names_of_digit {d : Char} (hd : d.isDigit = true) (negative : Bool) (rest : Text) :
    (names.find? fun (name, _) => name.toList.isPrefixOf
      ((if negative then ['-'] else []) ++ d :: rest)) = none := by
  have hother {c : Char} (hc : c.isDigit = false) : (c == d) = false := by
    rw [beq_eq_false_iff_ne]
    rintro rfl
    rw [hd] at hc
    simp at hc
  cases negative with
  | true =>
    simp [names, List.isPrefixOf, hother (show 'I'.isDigit = false by decide)]
  | false =>
    simp [names, List.isPrefixOf, hother (show 'n'.isDigit = false by decide),
      hother (show 't'.isDigit = false by decide), hother (show 'f'.isDigit = false by decide),
      hother (show 'N'.isDigit = false by decide), hother (show 'I'.isDigit = false by decide),
      hother (show '-'.isDigit = false by decide)]

theorem scalar_toDigits {n : Nat} (hn : n < digitBound) (negative : Bool) {rest : Text}
    (h : Ends rest) :
    scalar ((if negative then ['-'] else []) ++ (Nat.toDigits 10 n ++ rest)) =
      .ok (.int (if negative then -(n : Int) else n), rest) := by
  have hnumber := number_toDigits hn negative h
  obtain ⟨d, digits, hd⟩ : ∃ d digits, Nat.toDigits 10 n = d :: digits :=
    List.exists_cons_of_ne_nil Nat.toDigits_ne_nil
  have hdigit : d.isDigit = true := Binary64.isDigit_of_mem_toDigits (hd ▸ List.mem_cons_self ..)
  rw [hd, List.cons_append] at hnumber ⊢
  rw [scalar, find?_names_of_digit hdigit]
  exact hnumber

theorem exists_first (n : Int) :
    ∃ c more, (toString n).toList = c :: more ∧ (c = '-' ∨ c.isDigit = true) := by
  obtain ⟨d, digits, hd⟩ : ∃ d digits, Nat.toDigits 10 n.natAbs = d :: digits :=
    List.exists_cons_of_ne_nil Nat.toDigits_ne_nil
  rw [toList_toString]
  split
  · exact ⟨'-', _, rfl, Or.inl rfl⟩
  · exact ⟨d, digits, hd, Or.inr (Binary64.isDigit_of_mem_toDigits (hd ▸ List.mem_cons_self ..))⟩

theorem scalar_int {n : Int} (h : n.natAbs < digitBound) {rest : Text} (hends : Ends rest) :
    scalar ((toString n).toList ++ rest) = .ok (.int n, rest) := by
  have hscalar := scalar_toDigits h (decide (n < 0)) hends
  have hint : (if decide (n < 0) = true then -(n.natAbs : Int) else n.natAbs) = n := by
    by_cases hn : n < 0
    · rw [if_pos (by simpa using hn)]
      omega
    · rw [if_neg (by simpa using hn)]
      omega
  rw [hint] at hscalar
  simp only [decide_eq_true_eq] at hscalar
  rw [toList_toString, List.append_assoc, hscalar]

/-! ### Without carriage returns -/

theorem unreturned_newLine (depth : Nat) : '\r' ∉ newLine depth := by
  intro h
  rcases List.mem_cons.1 h with h | h
  · simp at h
  · have hblank := List.eq_of_mem_replicate h
    simp at hblank

theorem hexDigit_ne_return : ∀ k < 16, Text.hexDigit k ≠ '\r' := by
  decide

theorem unreturned_hex (width n : Nat) : '\r' ∉ Text.hex width n := by
  induction width generalizing n with
  | zero => simp [Text.hex]
  | succ width ih =>
    intro h
    rcases List.mem_append.1 h with h | h
    · exact ih (n / 16) h
    · exact hexDigit_ne_return (n % 16) (Nat.mod_lt _ (by decide)) (List.mem_singleton.1 h).symm

theorem unreturned_encodeChar (c : Char) : '\r' ∉ encodeChar c := by
  unfold encodeChar
  split_ifs with _ _ _ hreturn
  any_goals decide
  · simp [unreturned_hex 4 c.toNat]
  · simpa using Ne.symm hreturn

theorem unreturned_encodeString (t : Text) : '\r' ∉ encodeString t := by
  intro h
  rcases List.mem_append.1 h with h | h
  · rcases List.mem_cons.1 h with h | h
    · simp at h
    · obtain ⟨c, _, hc⟩ := List.mem_flatMap.1 h
      exact unreturned_encodeChar c hc
  · simp at h

theorem unreturned_int (n : Int) : '\r' ∉ (toString n).toList := by
  intro h
  rw [toList_toString] at h
  rcases List.mem_append.1 h with h | h
  · split at h <;> simp at h
  · have hdigit := Binary64.isDigit_of_mem_toDigits h
    simp at hdigit

variable [Alphabet]

/-! ### Written values -/

/-- A text from which a value is read back where values may be nested so deep, whatever follows that
does not go on a number. -/
structure Written (limit : Nat) (v : Value) (t : Text) : Prop where
  begins : Begins t
  unreturned : '\r' ∉ t
  read : ∀ fuel rest, Ends rest → (t ++ rest).length ≤ fuel →
    value (fuel + 1) limit (t ++ rest) = .ok (v, rest)

structure WrittenItems (limit : Nat) (vs : List Value) (t : Text) : Prop where
  begins : Begins t
  unreturned : '\r' ∉ t
  read : ∀ fuel depth rest, (t ++ (newLine depth ++ ']' :: rest)).length + 1 ≤ fuel →
    items (fuel + 1) limit (t ++ (newLine depth ++ ']' :: rest)) = .ok (vs, rest)

structure WrittenEntries (limit : Nat) (es : Table) (t : Text) : Prop where
  begins : t.head? = some '"'
  unreturned : '\r' ∉ t
  read : ∀ fuel done depth rest, (Table.keys done ++ Table.keys es).Nodup →
    (t ++ (newLine depth ++ '\x7d' :: rest)).length ≤ fuel →
    entries (fuel + 1) limit done (t ++ (newLine depth ++ '\x7d' :: rest)) = .ok (done ++ es, rest)

variable {limit : Nat}

/-! With enough fuel there is some. -/

theorem Written.value_eq {v : Value} {t : Text} (h : Written limit v t) {fuel : Nat} {rest : Text}
    (hends : Ends rest) (hfuel : (t ++ rest).length < fuel) :
    value fuel limit (t ++ rest) = .ok (v, rest) := by
  cases fuel with
  | zero => exact absurd hfuel (Nat.not_lt_zero _)
  | succ fuel => exact h.read fuel rest hends (Nat.le_of_lt_succ hfuel)

theorem WrittenItems.items_eq {vs : List Value} {t : Text} (h : WrittenItems limit vs t)
    {fuel : Nat}
    {depth : Nat} {rest : Text}
    (hfuel : (t ++ (newLine depth ++ ']' :: rest)).length + 1 < fuel) :
    items fuel limit (t ++ (newLine depth ++ ']' :: rest)) = .ok (vs, rest) := by
  cases fuel with
  | zero => exact absurd hfuel (Nat.not_lt_zero _)
  | succ fuel => exact h.read fuel depth rest (Nat.le_of_lt_succ hfuel)

theorem WrittenEntries.entries_eq {es done : Table} {t : Text} (h : WrittenEntries limit es t)
    {fuel depth : Nat} {rest : Text} (hkeys : (Table.keys done ++ Table.keys es).Nodup)
    (hfuel : (t ++ (newLine depth ++ '\x7d' :: rest)).length < fuel) :
    entries fuel limit done (t ++ (newLine depth ++ '\x7d' :: rest)) = .ok (done ++ es, rest) := by
  cases fuel with
  | zero => exact absurd hfuel (Nat.not_lt_zero _)
  | succ fuel => exact h.read fuel done depth rest hkeys (Nat.le_of_lt_succ hfuel)

/-! ### Scalars and strings -/

theorem value_of_scalar {c : Char} (hq : c ≠ '"') (hl : c ≠ '[') (ht : c ≠ '\x7b') (fuel : Nat)
    (limit : Nat) (rest : Text) : value (fuel + 1) limit (c :: rest) = scalar (c :: rest) := by
  unfold value
  split
  · next h => simp at h
  · next h => exact absurd (List.cons.inj h).1 hq
  · next h => exact absurd (List.cons.inj h).1 hl
  · next h => exact absurd (List.cons.inj h).1 ht
  · rfl

theorem written_text (t : Text) : Written limit (.text t) (encodeString t) where
  begins := ⟨'"', _, rfl, rfl, by decide, by decide⟩
  unreturned := unreturned_encodeString t
  read fuel rest _ hfuel := by
    rw [encodeString, List.append_assoc, List.cons_append]
    show (string _ (t.flatMap encodeChar ++ '"' :: rest)).map _ = _
    rw [string_encode]
    rfl

theorem written_null : Written limit .null "null".toList where
  begins := ⟨'n', _, rfl, rfl, by decide, by decide⟩
  unreturned := by decide
  read fuel rest _ _ :=
    (value_of_scalar (by decide) (by decide) (by decide) fuel _ _).trans (scalar_null rest)

theorem written_bool (b : Bool) :
    Written limit (.bool b) (if b then "true" else "false").toList where
  begins := by
    cases b with
    | true => exact ⟨'t', _, rfl, rfl, by decide, by decide⟩
    | false => exact ⟨'f', _, rfl, rfl, by decide, by decide⟩
  unreturned := by cases b <;> decide
  read fuel rest _ hfuel := by
    refine Eq.trans ?_ (scalar_bool b rest)
    cases b with
    | true => exact value_of_scalar (by decide) (by decide) (by decide) fuel _ _
    | false => exact value_of_scalar (by decide) (by decide) (by decide) fuel _ _

theorem written_int {n : Int} (h : n.natAbs < digitBound) :
    Written limit (.int n) (toString n).toList := by
  obtain ⟨c, more, hc, hsign⟩ := exists_first n
  have hne {other : Char} (hdash : other ≠ '-') (hdigit : other.isDigit = false) : c ≠ other := by
    rintro rfl
    rcases hsign with rfl | hsign
    · exact hdash rfl
    · rw [hsign] at hdigit
      simp at hdigit
  have hgap : isGap c = false := by
    simp [isGap, hne (show ' ' ≠ '-' by decide) (by decide),
      hne (show '\t' ≠ '-' by decide) (by decide), hne (show '\n' ≠ '-' by decide) (by decide),
      hne (show '\r' ≠ '-' by decide) (by decide)]
  refine ⟨⟨c, more, hc, hgap, hne (by decide) (by decide), hne (by decide) (by decide)⟩,
    unreturned_int n, fun fuel rest hends _ => ?_⟩
  rw [← scalar_int h hends, hc, List.cons_append]
  exact value_of_scalar (hne (by decide) (by decide)) (hne (by decide) (by decide))
    (hne (by decide) (by decide)) fuel _ _

/-! ### Lists -/

section
variable {fuel : Nat} {text rest rest' rest'' : Text} {v : Value} {vs : List Value}

theorem items_last (h : value fuel limit text = .ok (v, rest)) (hs : skip rest = ']' :: rest') :
    items (fuel + 1) limit text = .ok ([v], rest') := by
  simp only [items, h, bind, Except.bind, hs]
  rfl

theorem items_next (h : value fuel limit text = .ok (v, rest)) (hs : skip rest = ',' :: rest')
    (hmore : items fuel limit (skip rest') = .ok (vs, rest'')) :
    items (fuel + 1) limit text = .ok (v :: vs, rest'') := by
  simp only [items, h, bind, Except.bind, hs, hmore]
  rfl

theorem value_of_items {c : Char} (hs : skip rest = c :: rest') (hc : c ≠ ']')
    (h : items fuel limit (c :: rest') = .ok (vs, rest'')) :
    value (fuel + 1) (limit + 1) ('[' :: rest) = .ok (.list vs, rest'') := by
  rw [value, hs]
  split
  · next heq => exact absurd (List.cons.inj heq).1 hc
  · rw [h]
    rfl

end

theorem Written.single {v : Value} {t : Text} (h : Written limit v t) :
    WrittenItems limit [v] t where
  begins := h.begins
  unreturned := h.unreturned
  read _ depth _ hfuel :=
    items_last (h.value_eq (ends_newLine depth _) (by omega)) (skip_newLine depth _)

theorem Written.cons {v : Value} {vs : List Value} {t u : Text} (h : Written limit v t)
    (hmore : WrittenItems limit vs u) (depth : Nat) :
    WrittenItems limit (v :: vs) (t ++ ',' :: (newLine depth ++ u)) where
  begins := h.begins.append _
  unreturned := by
    simp only [List.mem_append, List.mem_cons, not_or]
    exact ⟨h.unreturned, by decide, unreturned_newLine depth, hmore.unreturned⟩
  read fuel depth' rest hfuel := by
    rw [List.append_assoc, List.cons_append, List.append_assoc] at hfuel ⊢
    refine items_next (h.value_eq (ends_comma _) (by omega)) rfl ?_
    rw [skip_newLine, (hmore.begins.append _).skip_eq]
    apply hmore.items_eq
    simp only [List.length_append, List.length_cons] at hfuel ⊢
    omega

theorem written_nil : Written (limit + 1) (.list []) "[]".toList where
  begins := ⟨'[', _, rfl, rfl, by decide, by decide⟩
  unreturned := by decide
  read _ _ _ _ := rfl

theorem WrittenItems.list {vs : List Value} {t : Text} (h : WrittenItems limit vs t)
    (depth depth' : Nat) :
    Written (limit + 1) (.list vs) ('[' :: (newLine depth ++ t) ++ (newLine depth' ++ [']'])) where
  begins := ⟨'[', _, rfl, rfl, by decide, by decide⟩
  unreturned := by
    simp only [List.mem_append, List.mem_cons, List.not_mem_nil, or_false, not_or]
    exact ⟨⟨by decide, unreturned_newLine depth, h.unreturned⟩, unreturned_newLine depth',
      by decide⟩
  read fuel rest _ hfuel := by
    have hshape : '[' :: (newLine depth ++ t) ++ (newLine depth' ++ [']']) ++ rest =
        '[' :: (newLine depth ++ (t ++ (newLine depth' ++ ']' :: rest))) := by simp
    rw [hshape] at hfuel ⊢
    obtain ⟨c, more, ht, _, hc, _⟩ := h.begins.append (newLine depth' ++ ']' :: rest)
    have hskip : skip (newLine depth ++ (t ++ (newLine depth' ++ ']' :: rest))) = c :: more := by
      rw [skip_newLine, (h.begins.append _).skip_eq, ht]
    refine value_of_items hskip hc ?_
    rw [← ht]
    apply h.items_eq
    simp only [List.length_append, List.length_cons, newLine] at hfuel ⊢
    omega

/-! ### Tables -/

section
variable {fuel : Nat} {done table : Table} {text key rest rest' more more' after : Text} {v : Value}

/-- A key and a value are read from the start of a text, up to what follows the value. -/
def ReadsEntry (fuel limit : Nat) (text key : Text) (v : Value) (after : Text) : Prop :=
  ∃ first more more', text = '"' :: first ∧ string text first = .ok (key, more) ∧
    skip more = ':' :: more' ∧ value fuel limit (skip more') = .ok (v, after)

theorem ReadsEntry.last (h : ReadsEntry fuel limit text key v after)
    (hs : skip after = '\x7d' :: rest) :
    entries (fuel + 1) limit done text = .ok (done.set (str key) v, rest) := by
  obtain ⟨first, more, more', rfl, hstring, hcolon, hvalue⟩ := h
  simp only [entries, hstring, bind, Except.bind, hcolon, hvalue, hs]
  rfl

theorem ReadsEntry.next (h : ReadsEntry fuel limit text key v after) (hs : skip after = ',' :: rest)
    (hmore : entries fuel limit (done.set (str key) v) (skip rest) = .ok (table, rest')) :
    entries (fuel + 1) limit done text = .ok (table, rest') := by
  obtain ⟨first, more, more', rfl, hstring, hcolon, hvalue⟩ := h
  simp only [entries, hstring, bind, Except.bind, hcolon, hvalue, hs, hmore]

theorem value_of_entries (hs : skip rest = '"' :: rest')
    (h : entries fuel limit [] ('"' :: rest') = .ok (table, after)) :
    value (fuel + 1) (limit + 1) ('\x7b' :: rest) = .ok (.table table, after) := by
  rw [value, hs]
  show (entries fuel limit [] ('"' :: rest')).map _ = _
  rw [h]
  rfl

theorem Written.readsEntry {t : Text} (h : Written limit v t) (key : Text) (hends : Ends after)
    (hfuel : (t ++ after).length < fuel) :
    ReadsEntry fuel limit (encodeString key ++ ':' :: ' ' :: (t ++ after)) key v after := by
  refine ⟨key.flatMap encodeChar ++ '"' :: ':' :: ' ' :: (t ++ after), ':' :: ' ' :: (t ++ after),
    ' ' :: (t ++ after), ?_, string_encode _ key _, rfl, ?_⟩
  · simp [encodeString]
  · show value fuel limit (skip (t ++ after)) = _
    rw [(h.begins.append after).skip_eq, h.value_eq hends hfuel]

end

theorem Written.entry {v : Value} {t : Text} (h : Written limit v t) (key : String) :
    WrittenEntries limit [(key, v)] (encodeString key.toList ++ ':' :: ' ' :: t) where
  begins := rfl
  unreturned := by
    simp only [List.mem_append, List.mem_cons, not_or]
    exact ⟨unreturned_encodeString _, by decide, by decide, h.unreturned⟩
  read fuel done depth rest hkeys hfuel := by
    rw [List.append_assoc, List.cons_append, List.cons_append] at hfuel ⊢
    have hlen : (t ++ (newLine depth ++ '\x7d' :: rest)).length < fuel := by
      simp only [List.length_append, List.length_cons] at hfuel ⊢
      omega
    have hread := h.readsEntry key.toList (ends_newLine depth _) hlen
    have hnew : key ∉ Table.keys done := fun hm =>
      (List.nodup_append.1 hkeys).2.2 key hm key (List.mem_cons_self ..) rfl
    rw [hread.last (skip_newLine depth _), str_toList, Table.set_of_not_mem hnew]

theorem Written.entryCons {v : Value} {es : Table} {t u : Text} (h : Written limit v t)
    (key : String)
    (hmore : WrittenEntries limit es u) (depth : Nat) :
    WrittenEntries limit ((key, v) :: es)
      (encodeString key.toList ++ ':' :: ' ' :: (t ++ ',' :: (newLine depth ++ u))) where
  begins := rfl
  unreturned := by
    simp only [List.mem_append, List.mem_cons, not_or]
    exact ⟨unreturned_encodeString _, by decide, by decide, h.unreturned, by decide,
      unreturned_newLine depth, hmore.unreturned⟩
  read fuel done depth' rest hkeys hfuel := by
    obtain ⟨more, hu⟩ := List.head?_eq_some_iff.1 hmore.begins
    have hshape : encodeString key.toList ++ ':' :: ' ' :: (t ++ ',' :: (newLine depth ++ u)) ++
        (newLine depth' ++ '\x7d' :: rest) = encodeString key.toList ++ ':' :: ' ' ::
          (t ++ ',' :: (newLine depth ++ (u ++ (newLine depth' ++ '\x7d' :: rest)))) := by simp
    rw [hshape] at hfuel ⊢
    have hlen : (t ++ ',' :: (newLine depth ++
        (u ++ (newLine depth' ++ '\x7d' :: rest)))).length < fuel := by
      simp only [List.length_append, List.length_cons] at hfuel ⊢
      omega
    have hread := h.readsEntry key.toList (ends_comma _) hlen
    have hnew : key ∉ Table.keys done := fun hm =>
      (List.nodup_append.1 hkeys).2.2 key hm key (List.mem_cons_self ..) rfl
    have hkeys' : (Table.keys (done ++ [(key, v)]) ++ Table.keys es).Nodup := by
      simpa [Table.keys] using hkeys
    refine hread.next rfl ?_
    have hquote : skip (u ++ (newLine depth' ++ '\x7d' :: rest)) =
        u ++ (newLine depth' ++ '\x7d' :: rest) := by
      rw [hu]
      rfl
    rw [str_toList, Table.set_of_not_mem hnew, skip_newLine, hquote,
      hmore.entries_eq hkeys', List.append_assoc]
    · rfl
    · simp only [List.length_append, List.length_cons] at hfuel ⊢
      omega

theorem written_empty : Written (limit + 1) (.table []) "\x7b\x7d".toList where
  begins := ⟨'\x7b', _, rfl, rfl, by decide, by decide⟩
  unreturned := by decide
  read _ _ _ _ := rfl

theorem WrittenEntries.table {es : Table} {t : Text} (h : WrittenEntries limit es t)
    (hkeys : es.keys.Nodup) (depth depth' : Nat) :
    Written (limit + 1) (.table es)
      ('\x7b' :: (newLine depth ++ t) ++ (newLine depth' ++ ['\x7d'])) where
  begins := ⟨'\x7b', _, rfl, rfl, by decide, by decide⟩
  unreturned := by
    simp only [List.mem_append, List.mem_cons, List.not_mem_nil, or_false, not_or]
    exact ⟨⟨by decide, unreturned_newLine depth, h.unreturned⟩, unreturned_newLine depth',
      by decide⟩
  read fuel rest _ hfuel := by
    have hshape : '\x7b' :: (newLine depth ++ t) ++ (newLine depth' ++ ['\x7d']) ++ rest =
        '\x7b' :: (newLine depth ++ (t ++ (newLine depth' ++ '\x7d' :: rest))) := by simp
    rw [hshape] at hfuel ⊢
    obtain ⟨more, ht⟩ := List.head?_eq_some_iff.1 h.begins
    have hskip : skip (newLine depth ++ (t ++ (newLine depth' ++ '\x7d' :: rest))) =
        '"' :: (more ++ (newLine depth' ++ '\x7d' :: rest)) := by
      rw [skip_newLine, ht]
      rfl
    refine value_of_entries hskip ?_
    have hkeys' : (Table.keys [] ++ es.keys).Nodup := hkeys
    rw [← List.cons_append, ← ht, h.entries_eq hkeys', List.nil_append]
    simp only [List.length_append, List.length_cons, newLine] at hfuel ⊢
    omega

/-! ### Plain values are read back -/

mutual

theorem spells_value (depth : Nat) : ∀ (limit : Nat) (v : Value), v.Plain limit →
    ∃ t, Spells (pieces depth v) t ∧ Written limit v t
  | _, .null, _ => ⟨_, spells_singleton _, written_null⟩
  | _, .bool b, _ => ⟨_, spells_singleton _, written_bool b⟩
  | _, .int _, h => ⟨_, spells_singleton _, written_int (by simpa only [Value.Plain] using h)⟩
  | _, .text t, _ => ⟨_, spells_singleton _, written_text t⟩
  | limit + 1, .list items, h => by
    cases items with
    | nil => exact ⟨_, spells_singleton _, written_nil⟩
    | cons item more =>
      obtain ⟨t, hspells, hwritten⟩ := spells_items (depth + 1) limit (item :: more) (by simp) h
      exact ⟨_, (hspells.text ['[']).append (spells_singleton _), hwritten.list (depth + 1) depth⟩
  | limit + 1, .table entries, h => by
    cases entries with
    | nil => exact ⟨_, spells_singleton _, written_empty⟩
    | cons entry more =>
      obtain ⟨t, hspells, hwritten⟩ :=
        spells_entries (depth + 1) limit (entry :: more) (by simp) h.2
      exact ⟨_, (hspells.text ['\x7b']).append (spells_singleton _),
        hwritten.table h.1 (depth + 1) depth⟩

theorem spells_items (depth limit : Nat) : ∀ vs : List Value, vs ≠ [] →
    Value.PlainItems limit vs →
      ∃ t, Spells (itemPieces depth vs) (newLine depth ++ t) ∧ WrittenItems limit vs t
  | [], hne, _ => absurd rfl hne
  | v :: vs, _, h => by
    obtain ⟨t, hspells, hwritten⟩ := spells_value depth limit v h.1
    cases vs with
    | nil => exact ⟨t, hspells.text _, hwritten.single⟩
    | cons v' vs =>
      obtain ⟨u, hspells', hwritten'⟩ := spells_items depth limit (v' :: vs) (by simp) h.2
      have hjoined := (hspells.append (hspells'.text [','])).text (newLine depth)
      exact ⟨_, hjoined, hwritten.cons hwritten' depth⟩

theorem spells_entries (depth limit : Nat) : ∀ es : List (String × Value), es ≠ [] →
    Value.PlainEntries limit es →
      ∃ t, Spells (entryPieces depth es) (newLine depth ++ t) ∧ WrittenEntries limit es t
  | [], hne, _ => absurd rfl hne
  | (key, v) :: es, _, h => by
    obtain ⟨t, hspells, hwritten⟩ := spells_value depth limit v h.1
    have hlead (u : Text) : newLine depth ++ encodeString key.toList ++ [':', ' '] ++ u =
        newLine depth ++ (encodeString key.toList ++ ':' :: ' ' :: u) := by simp
    cases es with
    | nil =>
      refine ⟨_, ?_, hwritten.entry key⟩
      rw [← hlead]
      exact hspells.text _
    | cons e es =>
      obtain ⟨u, hspells', hwritten'⟩ := spells_entries depth limit (e :: es) (by simp) h.2
      refine ⟨_, ?_, hwritten.entryCons key hwritten' depth⟩
      rw [← hlead]
      exact (hspells.append (hspells'.text [','])).text _

end

theorem Written.read_eq {v : Value} {t : Text} (h : Written limit v t) :
    Json.read limit t = .ok v := by
  obtain ⟨c, rest, hc, _, _, hmark⟩ := id h.begins
  have hhead : ¬ t.head? = some (Char.ofNat 0xfeff) := by
    rw [hc, List.head?_cons, Option.some.injEq]
    exact hmark
  have hvalue := h.read (2 * t.length) [] (fun c hc => by simp at hc) (by simp; omega)
  rw [List.append_nil] at hvalue
  unfold Json.read
  rw [if_neg hhead, h.begins.skip_eq, hvalue]
  rfl

/-- A plain value is written whole, without carriage returns, and read back. -/
theorem read_print {v : Value} (h : v.Plain limit) :
    (print v).2 = none ∧ '\r' ∉ (print v).1 ∧ Json.read limit (print v).1 = .ok v := by
  obtain ⟨t, ⟨parts, hparts, rfl⟩, hwritten⟩ := spells_value 0 limit v h
  rw [print, hparts]
  exact ⟨rfl, hwritten.unreturned, hwritten.read_eq⟩

end Json

end Inlay
