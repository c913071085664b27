import Inlay.Codec.Name
import Inlay.Proofs.Codec.Utf8
import Mathlib

/-!
# What is read is written back

A codec without a mark writes a text that it has read to the same bytes: no character has two forms.
A codec with a mark puts it in front of everything it writes, so it gives back exactly the bytes
that start with the mark (`Codec.Marked.exists_encode_of_decode`).
-/

namespace Inlay

theorem toNat_ofNat {n : Nat} (h : n.isValidChar) : (Char.ofNat n).toNat = n := by
  rw [Char.toNat_ofNat, if_pos h]

theorem exists_of_map {c : Char} {read : Except CodecFault Text} {text : Text}
    (h : (c :: ·) <$> read = .ok text) : ∃ more, read = .ok more ∧ c :: more = text := by
  cases read with
  | error f => simp at h
  | ok more => exact ⟨more, rfl, Except.ok.inj h⟩

/-! ### UTF-8 -/

namespace Utf8

theorem byte_eq {b : Byte} {n : Nat} (h : b.val = n) : byte n = b :=
  Fin.ext ((val_byte (h ▸ b.isLt)).trans h.symm)

section
variable {position : Nat} {p : Partial} {bytes : Bytes} {text : Text}
  (hlow : 0x80 ≤ p.low) (hhigh : p.high ≤ 0xbf)
  (h : read position (some p) bytes = .ok text)
include hlow hhigh h

theorem of_read_more (hneed : 1 < p.need) :
    ∃ n rest, n < 0x40 ∧ p.low ≤ 0x80 + n ∧ 0x80 + n ≤ p.high ∧ bytes = byte (0x80 + n) :: rest ∧
      read (position + 1)
        (some ⟨p.start, p.lead, p.need - 1, 0x80, 0xbf, 0x40 * p.value + n⟩) rest = .ok text := by
  cases bytes with
  | nil => simp [read] at h
  | cons b rest =>
    rw [read] at h
    simp only at h
    split at h
    · next hb =>
      rw [if_neg (by omega)] at h
      have hval : b.val = 0x80 + (b.val - 0x80) := by omega
      exact ⟨b.val - 0x80, rest, by omega, by omega, by omega, by rw [byte_eq hval], h⟩
    · simp at h

theorem of_read_last (hneed : p.need = 1) :
    ∃ n rest more, n < 0x40 ∧ p.low ≤ 0x80 + n ∧ 0x80 + n ≤ p.high ∧
      bytes = byte (0x80 + n) :: rest ∧ text = Char.ofNat (0x40 * p.value + n) :: more ∧
      read (position + 1) none rest = .ok more := by
  cases bytes with
  | nil => simp [read] at h
  | cons b rest =>
    rw [read] at h
    simp only at h
    split at h
    · next hb =>
      rw [if_pos (by omega)] at h
      have hval : b.val = 0x80 + (b.val - 0x80) := by omega
      obtain ⟨more, hmore, htext⟩ := exists_of_map h
      exact ⟨b.val - 0x80, rest, more, by omega, by omega, by omega, by rw [byte_eq hval],
        htext.symm, hmore⟩
    · simp at h

end

/-- A lead byte opens a character of two, three or four bytes. -/
theorem of_begin {position : Nat} {b : Byte} {p : Partial} (h : begin? position b = some p) :
    (∃ k, 2 ≤ k ∧ k < 0x20 ∧ b = byte (0xc0 + k) ∧ p = ⟨position, b, 1, 0x80, 0xbf, k⟩) ∨
      (∃ k, k < 0x10 ∧ b = byte (0xe0 + k) ∧ p = ⟨position, b, 2, if k = 0 then 0xa0 else 0x80,
        if k = 0xd then 0x9f else 0xbf, k⟩) ∨
      ∃ k, k ≤ 4 ∧ b = byte (0xf0 + k) ∧ p = ⟨position, b, 3, if k = 0 then 0x90 else 0x80,
        if k = 4 then 0x8f else 0xbf, k⟩ := by
  have hrange : 0xc2 ≤ b.val ∧ b.val ≤ 0xf4 := by
    by_contra hout
    simp only [begin?] at h
    rw [if_neg (by omega), if_neg (by omega), if_neg (by omega), if_neg (by omega),
      if_neg (by omega), if_neg (by omega), if_neg (by omega)] at h
    simp at h
  by_cases htwo : b.val < 0xe0
  · obtain ⟨k, hk⟩ := Nat.exists_eq_add_of_le (show 0xc0 ≤ b.val by omega)
    have hbk : b = byte (0xc0 + k) := (byte_eq hk).symm
    have hp := begin_two position (k := k) (by omega) (by omega)
    rw [← hbk, h] at hp
    exact Or.inl ⟨k, by omega, by omega, hbk, Option.some.inj hp⟩
  · by_cases hthree : b.val < 0xf0
    · obtain ⟨k, hk⟩ := Nat.exists_eq_add_of_le (show 0xe0 ≤ b.val by omega)
      have hbk : b = byte (0xe0 + k) := (byte_eq hk).symm
      obtain ⟨low, high, hp, rfl, rfl⟩ := exists_begin_three position (k := k) (by omega)
      rw [← hbk, h] at hp
      exact Or.inr (Or.inl ⟨k, by omega, hbk, Option.some.inj hp⟩)
    · obtain ⟨k, hk⟩ := Nat.exists_eq_add_of_le (show 0xf0 ≤ b.val by omega)
      have hbk : b = byte (0xf0 + k) := (byte_eq hk).symm
      obtain ⟨low, high, hp, rfl, rfl⟩ := exists_begin_four position (k := k) (by omega)
      rw [← hbk, h] at hp
      exact Or.inr (Or.inr ⟨k, by omega, hbk, Option.some.inj hp⟩)

theorem encodeChar_one {n : Nat} (h : n < 0x80) : encodeChar (Char.ofNat n) = [byte n] := by
  rw [encodeChar, toNat_ofNat (Or.inl (by omega)), if_pos h]

theorem encodeChar_two {k m : Nat} (hk : 2 ≤ k) (hk' : k < 0x20) (hm : m < 0x40) :
    encodeChar (Char.ofNat (0x40 * k + m)) = [byte (0xc0 + k), byte (0x80 + m)] := by
  have hlead : (0x40 * k + m) / 0x40 = k := by omega
  have hlast : (0x40 * k + m) % 0x40 = m := by omega
  rw [encodeChar, toNat_ofNat (Or.inl (by omega))]
  rw [if_neg (by omega), if_pos (by omega), hlead, hlast]

theorem encodeChar_three {k m n : Nat} (hk : k < 0x10) (hm : m < 0x40) (hn : n < 0x40)
    (hlow : k = 0 → 0x20 ≤ m) (hhigh : k = 0xd → m < 0x20) :
    encodeChar (Char.ofNat (0x40 * (0x40 * k + m) + n)) =
      [byte (0xe0 + k), byte (0x80 + m), byte (0x80 + n)] := by
  have hvalid : (0x40 * (0x40 * k + m) + n).isValidChar := by
    unfold Nat.isValidChar
    omega
  have hlead : (0x40 * (0x40 * k + m) + n) / 0x1000 = k := by omega
  have hnext : (0x40 * (0x40 * k + m) + n) / 0x40 % 0x40 = m := by omega
  have hlast : (0x40 * (0x40 * k + m) + n) % 0x40 = n := by omega
  rw [encodeChar, toNat_ofNat hvalid]
  rw [if_neg (by omega), if_neg (by omega), if_pos (by omega), hlead, hnext, hlast]

theorem encodeChar_four {k l m n : Nat} (hk : k ≤ 4) (hl : l < 0x40) (hm : m < 0x40)
    (hn : n < 0x40) (hlow : k = 0 → 0x10 ≤ l) (hhigh : k = 4 → l < 0x10) :
    encodeChar (Char.ofNat (0x40 * (0x40 * (0x40 * k + l) + m) + n)) =
      [byte (0xf0 + k), byte (0x80 + l), byte (0x80 + m), byte (0x80 + n)] := by
  have hvalid : (0x40 * (0x40 * (0x40 * k + l) + m) + n).isValidChar := by
    unfold Nat.isValidChar
    omega
  have hlead : (0x40 * (0x40 * (0x40 * k + l) + m) + n) / 0x40000 = k := by omega
  have hsecond : (0x40 * (0x40 * (0x40 * k + l) + m) + n) / 0x1000 % 0x40 = l := by omega
  have hnext : (0x40 * (0x40 * (0x40 * k + l) + m) + n) / 0x40 % 0x40 = m := by omega
  have hlast : (0x40 * (0x40 * (0x40 * k + l) + m) + n) % 0x40 = n := by omega
  rw [encodeChar, toNat_ofNat hvalid]
  rw [if_neg (by omega), if_neg (by omega), if_neg (by omega), hlead, hsecond, hnext, hlast]

/-- Bytes that are read start with the bytes of their first character. -/
theorem exists_of_read {position : Nat} {b : Byte} {bytes : Bytes} {text : Text}
    (h : read position none (b :: bytes) = .ok text) :
    ∃ c next rest more, text = c :: more ∧ b :: bytes = encodeChar c ++ rest ∧
      read next none rest = .ok more := by
  rw [read] at h
  split at h
  · next hb =>
    obtain ⟨more, hmore, htext⟩ := exists_of_map h
    refine ⟨_, position + 1, bytes, more, htext.symm, ?_, hmore⟩
    rw [encodeChar_one hb, byte_eq rfl, List.singleton_append]
  · split at h
    · next p hp =>
      rcases of_begin hp with ⟨k, hk, hk', rfl, rfl⟩ | ⟨k, hk, rfl, rfl⟩ | ⟨k, hk, rfl, rfl⟩
      · obtain ⟨m, rest, more, hm, _, _, rfl, rfl, hmore⟩ :=
          of_read_last (le_refl _) (le_refl _) h rfl
        exact ⟨_, _, rest, more, rfl, by rw [encodeChar_two hk hk' hm]; rfl, hmore⟩
      · obtain ⟨m, _, hm, hlow, hhigh, rfl, hlast⟩ := of_read_more (by simp only; split <;> omega)
          (by simp only; split <;> omega) h (show 1 < 2 by decide)
        obtain ⟨n, rest, more, hn, _, _, rfl, rfl, hmore⟩ :=
          of_read_last (le_refl _) (le_refl _) hlast rfl
        refine ⟨_, _, rest, more, rfl, ?_, hmore⟩
        rw [encodeChar_three hk hm hn (fun hz => by simp [hz] at hlow; omega)
          (fun hz => by simp [hz] at hhigh; omega)]
        rfl
      · obtain ⟨l, _, hl, hlow, hhigh, rfl, hnext⟩ := of_read_more (by simp only; split <;> omega)
          (by simp only; split <;> omega) h (show 1 < 3 by decide)
        obtain ⟨m, _, hm, _, _, rfl, hlast⟩ :=
          of_read_more (le_refl _) (le_refl _) hnext (show 1 < 2 by decide)
        obtain ⟨n, rest, more, hn, _, _, rfl, rfl, hmore⟩ :=
          of_read_last (le_refl _) (le_refl _) hlast rfl
        refine ⟨_, _, rest, more, rfl, ?_, hmore⟩
        rw [encodeChar_four hk hl hm hn (fun hz => by simp [hz] at hlow; omega)
          (fun hz => by simp [hz] at hhigh; omega)]
        rfl
    · simp at h

theorem encode_of_read {position : Nat} {bytes : Bytes} {text : Text}
    (h : read position none bytes = .ok text) : encode text = bytes := by
  induction hn : bytes.length using Nat.strong_induction_on generalizing position bytes text with
  | _ n ih =>
    cases bytes with
    | nil =>
      obtain rfl : [] = text := by simpa [read] using h
      rfl
    | cons b bytes =>
      obtain ⟨c, next, rest, more, rfl, hbytes, hmore⟩ := exists_of_read h
      have hlen : rest.length < n := by
        have hc : encodeChar c ≠ [] := by
          unfold encodeChar
          simp only
          split_ifs <;> simp
        have hpos := List.length_pos_iff.2 hc
        have hl := congrArg List.length hbytes
        rw [List.length_append, hn] at hl
        omega
      rw [hbytes, ← ih rest.length hlen hmore rfl, encode, List.flatMap_cons, ← encode]

theorem encode_of_decode {bytes : Bytes} {text : Text} (h : decode bytes = .ok text) :
    encode text = bytes :=
  encode_of_read h

end Utf8

/-! ### UTF-16 -/

namespace Utf16

theorem unitBytes_unitOf (order : Order) (a b : Byte) :
    unitBytes order (unitOf order a b) = [a, b] := by
  have ha := a.isLt
  have hb := b.isLt
  cases order with
  | little =>
    have hlow : Utf8.byte (a.val + 256 * b.val) = a := Fin.ext (by simp only [Utf8.byte]; omega)
    have hhigh : Utf8.byte ((a.val + 256 * b.val) / 256) = b :=
      Fin.ext (by simp only [Utf8.byte]; omega)
    rw [unitOf, unitBytes, hlow, hhigh]
  | big =>
    have hlow : Utf8.byte (256 * a.val + b.val) = b := Fin.ext (by simp only [Utf8.byte]; omega)
    have hhigh : Utf8.byte ((256 * a.val + b.val) / 256) = a :=
      Fin.ext (by simp only [Utf8.byte]; omega)
    rw [unitOf, unitBytes, hlow, hhigh]

theorem unitOf_lt (order : Order) (a b : Byte) : unitOf order a b < 0x10000 := by
  have ha := a.isLt
  have hb := b.isLt
  cases order <;> simp only [unitOf] <;> omega

theorem units_one {n : Nat} (h : n < 0x10000) (hvalid : ¬ (0xd800 ≤ n ∧ n < 0xe000)) :
    units (Char.ofNat n) = [n] := by
  have hn : (Char.ofNat n).toNat = n := toNat_ofNat (by unfold Nat.isValidChar; omega)
  rw [units, hn, if_pos h]

theorem units_two {high low : Nat} (hhigh : 0xd800 ≤ high ∧ high < 0xdc00)
    (hlow : 0xdc00 ≤ low ∧ low < 0xe000) :
    units (Char.ofNat (0x10000 + 0x400 * (high - 0xd800) + (low - 0xdc00))) = [high, low] := by
  have hn := toNat_ofNat (n := 0x10000 + 0x400 * (high - 0xd800) + (low - 0xdc00))
    (by unfold Nat.isValidChar; omega)
  have hfirst : 0xd800 + (0x10000 + 0x400 * (high - 0xd800) + (low - 0xdc00) - 0x10000) / 0x400 =
      high := by omega
  have hsecond : 0xdc00 + (0x10000 + 0x400 * (high - 0xd800) + (low - 0xdc00) - 0x10000) % 0x400 =
      low := by omega
  rw [units, hn, if_neg (by omega), hfirst, hsecond]

theorem encode_cons (order : Order) (c : Char) (text : Text) :
    encode order (c :: text) = (units c).flatMap (unitBytes order) ++ encode order text := by
  rw [encode, List.flatMap_cons, List.flatMap_append, ← encode]

/-- The bytes of a surrogate that waits for its second half. -/
def openBytes (order : Order) : Option Half → Bytes
  | none => []
  | some h => unitBytes order h.high

theorem encode_of_read {order : Order} {position : Nat} {half : Option Half} {bytes : Bytes}
    {text : Text} (hhalf : ∀ h ∈ half, 0xd800 ≤ h.high ∧ h.high < 0xdc00)
    (h : read order position half bytes = .ok text) :
    encode order text = openBytes order half ++ bytes := by
  fun_induction read order position half bytes generalizing text with
  | case1 =>
    obtain rfl := Except.ok.inj h
    rfl
  | case2 => simp at h
  | case3 => simp at h
  | case4 => simp at h
  | case5 position a b rest unit first hlow n =>
    rename_i ih
    obtain ⟨more, hmore, rfl⟩ := exists_of_map h
    have hpair : units (Char.ofNat n) = [first.high, unit] := units_two (hhalf first rfl) hlow
    have hunit : unitBytes order unit = [a, b] := unitBytes_unitOf order a b
    rw [encode_cons, ih (by simp) hmore, hpair, List.flatMap_cons, List.flatMap_singleton, hunit,
      List.append_assoc]
    rfl
  | case6 => simp at h
  | case7 position a b rest unit hhigh =>
    rename_i ih
    have hopen : openBytes order (some ⟨position, a, unit⟩) = [a, b] := unitBytes_unitOf order a b
    rw [ih (by rintro _ ⟨⟩; exact hhigh) h, hopen]
    rfl
  | case8 => simp at h
  | case9 position a b rest unit hhigh hlow =>
    rename_i ih
    obtain ⟨more, hmore, rfl⟩ := exists_of_map h
    have hone : units (Char.ofNat unit) = [unit] := units_one (unitOf_lt order a b) (by omega)
    have hunit : unitBytes order unit = [a, b] := unitBytes_unitOf order a b
    rw [encode_cons, ih (by simp) hmore, hone, List.flatMap_singleton, hunit]
    rfl

theorem encode_of_decode {order : Order} {bytes : Bytes} {text : Text}
    (h : decode order bytes = .ok text) : encode order text = bytes :=
  encode_of_read (by simp) h

end Utf16

/-! ### Codecs with one byte for a character -/

namespace SingleByte

/-- No character has two bytes. -/
def Faithful (codec : SingleByte) : Prop :=
  ∀ b : Byte, ∀ c ∈ codec.char? b, codec.byte? c = some b

theorem write_of_read {codec : SingleByte} (hc : codec.Faithful) {position : Nat} (start : Nat)
    {bytes : Bytes} {text : Text} (h : codec.read position bytes = .ok text) :
    codec.write start text = .ok bytes := by
  induction bytes generalizing position start text with
  | nil =>
    obtain rfl := Except.ok.inj h
    rfl
  | cons b rest ih =>
    rw [read] at h
    split at h
    · next c hread =>
      obtain ⟨more, hmore, rfl⟩ := exists_of_map h
      rw [write, hc b c hread, ih (start + 1) hmore]
      rfl
    · simp at h

theorem faithful_initial (name : String) (bound : Nat) : (initial name bound).Faithful := by
  intro b c hread
  simp only [initial, Option.mem_def, Option.ite_none_right_eq_some, Option.some.injEq] at hread
  obtain ⟨hb, rfl⟩ := hread
  have hlt := b.isLt
  have hn : (Char.ofNat b.val).toNat = b.val := toNat_ofNat (Or.inl (by omega))
  simp only [initial, hn]
  rw [dif_pos ⟨hb, hlt⟩]

/-- The western code page has every character of its own at one byte only. -/
theorem faithful_specials : ∀ i : Fin 32, ∀ n ∈ westernSpecials[i.val]?, n ≠ 0 →
    n.isValidChar ∧ ¬ (n < 0x80 ∨ 0xa0 ≤ n ∧ n < 0x100) ∧
      westernSpecials.idxOf? n = some i.val := by
  decide

theorem faithful_western : western.Faithful := by
  intro b c hread
  have hlt := b.isLt
  by_cases hspecial : 0x80 ≤ b.val ∧ b.val < 0xa0
  · simp only [western, if_pos hspecial, Option.mem_def] at hread
    split at hread
    · simp at hread
    · next n hn hget =>
      obtain ⟨hvalid, hrange, hindex⟩ := faithful_specials ⟨b.val - 0x80, by omega⟩ n hget hn
      rw [← Option.some.inj hread]
      simp only [western, toNat_ofNat hvalid, if_neg hrange, hindex, Option.map_some]
      rw [Utf8.byte_eq (show b.val = 0x80 + (b.val - 0x80) by omega)]
    · simp at hread
  · have hn : (Char.ofNat b.val).toNat = b.val := toNat_ofNat (Or.inl (by omega))
    simp only [western, if_neg hspecial, Option.mem_def, Option.some.injEq] at hread
    rw [← hread]
    simp only [western, hn]
    rw [if_pos (by omega), Utf8.byte_eq rfl]

end SingleByte

/-! ### Codecs by name -/

namespace Codec

theorem marked_eq_iff {mark body content : Bytes}
    (h : ∀ rest, content = mark ++ rest → body = rest) :
    mark ++ body = content ↔ mark <+: content := by
  constructor
  · rintro rfl
    exact List.prefix_append mark body
  · rintro ⟨rest, rfl⟩
    rw [h rest rfl]

variable [Alphabet]

/-- The codecs of the common encodings, with what each puts in front of everything it writes. -/
inductive Marked : Codec → Bytes → Prop
  | utf8 : Marked utf8 []
  | utf8Marked : Marked utf8Marked Utf8.mark
  | utf16 : Marked utf16 (Utf16.mark .little)
  | utf16Fixed (order : Utf16.Order) : Marked (utf16Fixed order) []
  | single {table : SingleByte} : table.Faithful → Marked (single table) []

theorem exists_marked_of_known? {name : Text} {codec : Codec}
    (h : Encoding.known? name = some (.text codec)) : ∃ mark, codec.Marked mark := by
  unfold Encoding.known? at h
  obtain ⟨entry, hfound, hentry⟩ := Option.map_eq_some_iff.1 h
  have hmem := List.mem_of_find?_eq_some hfound
  simp only [Encoding.names, List.mem_cons, List.not_mem_nil, or_false] at hmem
  rcases hmem with rfl | rfl | rfl | rfl | rfl | rfl | rfl | rfl | rfl | rfl | rfl
  · obtain rfl := Encoding.text.inj hentry
    exact ⟨_, .utf8⟩
  · obtain rfl := Encoding.text.inj hentry
    exact ⟨_, .utf8Marked⟩
  · obtain rfl := Encoding.text.inj hentry
    exact ⟨_, .utf16⟩
  · obtain rfl := Encoding.text.inj hentry
    exact ⟨_, .utf16Fixed .little⟩
  · obtain rfl := Encoding.text.inj hentry
    exact ⟨_, .utf16Fixed .big⟩
  · obtain rfl := Encoding.text.inj hentry
    exact ⟨_, .single (SingleByte.faithful_initial "ascii" 128)⟩
  · obtain rfl := Encoding.text.inj hentry
    exact ⟨_, .single (SingleByte.faithful_initial "latin-1" 256)⟩
  · obtain rfl := Encoding.text.inj hentry
    exact ⟨_, .single SingleByte.faithful_western⟩
  -- The other conversions are no codecs.
  · simp at hentry
  · simp at hentry
  · simp at hentry

theorem encode_ofUnicode {text : Text} (h : ∀ c ∈ text, Alphabet.isSurrogate c = false)
    (name : String) (together : Bool) (decode : Bytes → Except CodecFault Text)
    (encode : Text → Bytes) :
    (ofUnicode name together decode encode).encode text = .ok (encode text) := by
  simp only [ofUnicode, surrogateFault?_eq_none_iff.2 h]

/-- Text that was read can be written, if no character of it stands in for a surrogate. The bytes
are those that it was read from exactly if these start with what the codec puts in front. -/
theorem Marked.exists_encode_of_decode {codec : Codec} {mark : Bytes} (hc : codec.Marked mark)
    {content : Bytes} {text : Text} (h : codec.decode content = .ok text)
    (hs : ∀ c ∈ text, Alphabet.isSurrogate c = false) :
    ∃ bytes, codec.encode text = .ok bytes ∧ (bytes = content ↔ mark <+: content) := by
  cases hc with
  | utf8 =>
    refine ⟨_, encode_ofUnicode hs .., ?_⟩
    rw [Utf8.encode_of_decode h]
    simp
  | utf16Fixed order =>
    refine ⟨_, encode_ofUnicode hs .., ?_⟩
    rw [Utf16.encode_of_decode h]
    simp
  | single htable => exact ⟨content, SingleByte.write_of_read htable 0 h, by simp⟩
  | utf8Marked =>
    refine ⟨_, encode_ofUnicode hs .., marked_eq_iff fun rest hrest => ?_⟩
    rw [show Codec.utf8Marked.decode = Utf8.decodeMarked from rfl, Utf8.decodeMarked, hrest,
      if_pos (by simp), List.drop_left] at h
    exact Utf8.encode_of_decode h
  | utf16 =>
    refine ⟨_, encode_ofUnicode hs .., marked_eq_iff fun rest hrest => ?_⟩
    rw [show Codec.utf16.decode = Utf16.decodeMarked from rfl, Utf16.decodeMarked, hrest,
      if_pos (by simp)] at h
    exact Utf16.encode_of_read (by simp) h

end Codec

end Inlay
