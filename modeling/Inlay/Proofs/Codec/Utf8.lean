import Inlay.Codec.Utf8

/-!
# UTF-8 reads what it writes

Every character is read back from its bytes, whatever follows them (`exists_read_encodeChar`), so a
text is read back from its bytes (`decode_encode`).
-/

namespace Inlay.Utf8

theorem val_byte {n : Nat} (h : n < 256) : (byte n).val = n := Nat.mod_eq_of_lt h

/-- A byte that continues a character; the number of the character grows by six bits. -/
theorem read_more {position : Nat} {p : Partial} {n : Nat} (hlow : p.low ≤ 0x80 + n)
    (hhigh : 0x80 + n ≤ p.high) (hn : n < 0x40) (hneed : 1 < p.need) (rest : Bytes) :
    read position (some p) (byte (0x80 + n) :: rest) =
      read (position + 1)
        (some ⟨p.start, p.lead, p.need - 1, 0x80, 0xbf, 0x40 * p.value + n⟩) rest := by
  have hb : (byte (0x80 + n)).val = 0x80 + n := val_byte (by omega)
  rw [read, hb]
  simp only
  rw [if_pos ⟨hlow, hhigh⟩, if_neg (by omega), Nat.add_sub_cancel_left]

/-- The last byte of a character. -/
theorem read_last {position : Nat} {p : Partial} {n : Nat} (hlow : p.low ≤ 0x80 + n)
    (hhigh : 0x80 + n ≤ p.high) (hn : n < 0x40) (hneed : p.need = 1) (rest : Bytes) :
    read position (some p) (byte (0x80 + n) :: rest) =
      (Char.ofNat (0x40 * p.value + n) :: ·) <$> read (position + 1) none rest := by
  have hb : (byte (0x80 + n)).val = 0x80 + n := val_byte (by omega)
  rw [read, hb]
  simp only
  rw [if_pos ⟨hlow, hhigh⟩, if_pos (by omega), Nat.add_sub_cancel_left]

theorem read_lead {position : Nat} {n : Nat} {p : Partial} (hn : 0x80 ≤ n) (hsmall : n < 256)
    (h : begin? position (byte n) = some p) (rest : Bytes) :
    read position none (byte n :: rest) = read (position + 1) (some p) rest := by
  rw [read]
  simp only [val_byte hsmall, if_neg (Nat.not_lt.2 hn), h]

/-! ### Leads -/

theorem begin_two (position : Nat) {k : Nat} (hlow : 2 ≤ k) (hhigh : k < 0x20) :
    begin? position (byte (0xc0 + k)) =
      some ⟨position, byte (0xc0 + k), 1, 0x80, 0xbf, k⟩ := by
  have hb := val_byte (show 0xc0 + k < 256 by omega)
  simp only [begin?, hb]
  rw [if_pos (by omega), Nat.add_sub_cancel_left]

/-- The second byte of three leaves out longer forms of smaller characters, and surrogates. -/
theorem exists_begin_three (position : Nat) {k : Nat} (hk : k < 0x10) :
    ∃ low high, begin? position (byte (0xe0 + k)) =
        some ⟨position, byte (0xe0 + k), 2, low, high, k⟩ ∧
      low = (if k = 0 then 0xa0 else 0x80) ∧ high = (if k = 0xd then 0x9f else 0xbf) := by
  have hb := val_byte (show 0xe0 + k < 256 by omega)
  refine ⟨_, _, ?_, rfl, rfl⟩
  simp only [begin?, hb]
  rw [if_neg (by omega)]
  by_cases h0 : k = 0
  · subst h0
    rfl
  · rw [if_neg (by omega), if_neg h0]
    by_cases hd : k = 0xd
    · subst hd
      rfl
    · rw [if_neg (by omega), if_pos (by omega), if_neg hd, Nat.add_sub_cancel_left]

/-- The second byte of four leaves out longer forms, and numbers that are no characters. -/
theorem exists_begin_four (position : Nat) {k : Nat} (hk : k ≤ 4) :
    ∃ low high, begin? position (byte (0xf0 + k)) =
        some ⟨position, byte (0xf0 + k), 3, low, high, k⟩ ∧
      low = (if k = 0 then 0x90 else 0x80) ∧ high = (if k = 4 then 0x8f else 0xbf) := by
  have hb := val_byte (show 0xf0 + k < 256 by omega)
  refine ⟨_, _, ?_, rfl, rfl⟩
  simp only [begin?, hb]
  rw [if_neg (by omega), if_neg (by omega), if_neg (by omega), if_neg (by omega)]
  by_cases h0 : k = 0
  · subst h0
    rfl
  · rw [if_neg (by omega), if_neg h0]
    by_cases h4 : k = 4
    · subst h4
      rfl
    · rw [if_neg (by omega), if_pos (by omega), if_neg h4, Nat.add_sub_cancel_left]

/-! ### Characters and texts -/

theorem exists_read_encodeChar (c : Char) (position : Nat) (rest : Bytes) :
    ∃ next, read position none (encodeChar c ++ rest) = (c :: ·) <$> read next none rest := by
  have hvalid : c.toNat < 0xd800 ∨ 0xdfff < c.toNat ∧ c.toNat < 0x110000 := c.valid
  have hchar : Char.ofNat c.toNat = c := Char.ofNat_toNat c
  generalize hn : c.toNat = n at hvalid hchar
  unfold encodeChar
  simp only [hn]
  split
  · next h1 =>
    refine ⟨position + 1, ?_⟩
    rw [List.singleton_append, read]
    simp only [val_byte (show n < 256 by omega), if_pos h1, hchar]
  · next h1 =>
    split
    · next h2 =>
      have hp := begin_two position (k := n / 0x40) (by omega) (by omega)
      refine ⟨position + 2, ?_⟩
      rw [List.cons_append, List.singleton_append, read_lead (by omega) (by omega) hp,
        read_last (by simp only; omega) (by simp only; omega) (by omega) rfl]
      simp only [Nat.div_add_mod, hchar]
    · next h2 =>
      split
      · next h3 =>
        obtain ⟨low, high, hp, hlow, hhigh⟩ :=
          exists_begin_three position (k := n / 0x1000) (by omega)
        have hfirst : low ≤ 0x80 + n / 0x40 % 0x40 := by
          rw [hlow]
          split <;> omega
        have hlast : 0x80 + n / 0x40 % 0x40 ≤ high := by
          rw [hhigh]
          split <;> omega
        have hvalue : 0x40 * (0x40 * (n / 0x1000) + n / 0x40 % 0x40) + n % 0x40 = n := by omega
        refine ⟨position + 3, ?_⟩
        rw [List.cons_append, List.cons_append, List.singleton_append,
          read_lead (by omega) (by omega) hp,
          read_more hfirst hlast (by omega) (by simp only; omega),
          read_last (by simp only; omega) (by simp only; omega) (by omega) rfl]
        simp only [hvalue, hchar]
      · next h3 =>
        obtain ⟨low, high, hp, hlow, hhigh⟩ :=
          exists_begin_four position (k := n / 0x40000) (by omega)
        have hfirst : low ≤ 0x80 + n / 0x1000 % 0x40 := by
          rw [hlow]
          split <;> omega
        have hlast : 0x80 + n / 0x1000 % 0x40 ≤ high := by
          rw [hhigh]
          split <;> omega
        have hvalue : 0x40 * (0x40 * (0x40 * (n / 0x40000) + n / 0x1000 % 0x40) +
            n / 0x40 % 0x40) + n % 0x40 = n := by omega
        refine ⟨position + 4, ?_⟩
        rw [List.cons_append, List.cons_append, List.cons_append, List.singleton_append,
          read_lead (by omega) (by omega) hp,
          read_more hfirst hlast (by omega) (by simp only; omega),
          read_more (by simp only; omega) (by simp only; omega) (by omega) (by simp only; omega),
          read_last (by simp only; omega) (by simp only; omega) (by omega) rfl]
        simp only [hvalue, hchar]

theorem decode_encode (text : Text) : decode (encode text) = .ok text := by
  have hread (position : Nat) : read position none (encode text) = .ok text := by
    induction text generalizing position with
    | nil => rfl
    | cons c rest ih =>
      obtain ⟨next, hc⟩ := exists_read_encodeChar c position (encode rest)
      rw [encode, List.flatMap_cons]
      rw [encode] at hc ih
      rw [hc, ih]
      rfl
  exact hread 0

end Inlay.Utf8
