import Inlay.Json.Printer
import Inlay.Json.Reader
import Inlay.Proofs.Number.Decimals

/-!
# Strings and numbers that are read back

A string is read back character by character, whatever stands after its closing quote
(`string_encode`). A number is read back if what follows it does not go on a number
(`number_toDigits`).
-/

namespace Inlay.Json

/-! ### Numbers -/

/-- What may follow a number: it ends there. -/
def Ends (rest : Text) : Prop :=
  ∀ c ∈ rest.head?, c.isDigit = false ∧ c ≠ '.' ∧ c ≠ 'e' ∧ c ≠ 'E'

theorem fraction_of_ends {rest : Text} (h : Ends rest) : fraction rest = ([], rest) := by
  cases rest with
  | nil => rfl
  | cons c rest =>
    unfold fraction
    split
    · next heq =>
      obtain ⟨hc, _⟩ := List.cons.inj heq
      exact absurd hc (h c rfl).2.1
    · rfl

theorem exponent_of_ends {rest : Text} (h : Ends rest) : exponent rest = ([], rest) := by
  cases rest with
  | nil => rfl
  | cons c rest =>
    obtain ⟨_, _, hlower, hupper⟩ := h c rfl
    simp only [exponent, if_neg (not_or.2 ⟨hlower, hupper⟩)]

theorem whole_toDigits (n : Nat) {rest : Text} (h : Ends rest) :
    whole (Nat.toDigits 10 n ++ rest) = (Nat.toDigits 10 n, rest) := by
  by_cases hn : n = 0
  · subst hn
    rfl
  · have hrun := Binary64.digitRun_toDigits n fun c hc => (h c hc).1
    unfold whole
    split
    · next heq =>
      obtain ⟨d, digits, hd⟩ : ∃ d digits, Nat.toDigits 10 n = d :: digits :=
        List.exists_cons_of_ne_nil Nat.toDigits_ne_nil
      rw [hd, List.cons_append] at heq
      obtain ⟨rfl, _⟩ := List.cons.inj heq
      exact absurd hd (Binary64.head_toDigits hn)
    · exact hrun

theorem number_toDigits {n : Nat} (hn : n < digitBound) (negative : Bool) {rest : Text}
    (h : Ends rest) :
    number ((if negative then ['-'] else []) ++ (Nat.toDigits 10 n ++ rest)) =
      .ok (.int (if negative then -(n : Int) else n), rest) := by
  have hne : (Nat.toDigits 10 n).isEmpty = false := by simp
  have hlen : ¬ (Nat.toDigits 10 n).length > digitLimit :=
    Nat.not_lt.2 (Binary64.length_toDigits hn)
  cases negative with
  | true =>
    simp only [if_true, List.singleton_append, number, whole_toDigits n h, hne,
      fraction_of_ends h, exponent_of_ends h, hlen, Binary64.digitsValue_toDigits,
      List.isEmpty_nil, Bool.false_eq_true, if_false, and_self]
  | false =>
    obtain ⟨d, digits, hd⟩ : ∃ d digits, Nat.toDigits 10 n = d :: digits :=
      List.exists_cons_of_ne_nil Nat.toDigits_ne_nil
    have hdigit : d ≠ '-' := by
      rintro rfl
      have hdash := Binary64.isDigit_of_mem_toDigits (n := n) (hd ▸ List.mem_cons_self ..)
      simp at hdash
    simp only [Bool.false_eq_true, if_false, List.nil_append, number]
    split
    · next heq =>
      rw [hd, List.cons_append] at heq
      exact absurd (List.cons.inj heq).1 hdigit
    · simp only [whole_toDigits n h, hne, fraction_of_ends h, exponent_of_ends h, hlen,
        Binary64.digitsValue_toDigits, List.isEmpty_nil, Bool.false_eq_true, if_false, and_self,
        if_true]

theorem toList_toString (n : Int) :
    (toString n).toList = (if n < 0 then ['-'] else []) ++ Nat.toDigits 10 n.natAbs := by
  rw [Int.toString_eq_repr, Int.repr_eq_if]
  by_cases h : 0 ≤ n
  · rw [if_pos h, if_neg (by omega), Nat.toList_repr, List.nil_append,
      show n.toNat = n.natAbs by omega]
  · rw [if_neg h, if_pos (by omega), String.toList_append, Nat.toList_repr,
      show (-n).toNat = n.natAbs by omega]
    rfl

/-! ### Hexadecimal digits -/

theorem hexValue?_hexDigit : ∀ k < 16, Text.hexValue? (Text.hexDigit k) = some k := by
  decide

theorem fourHex?_hex {n : Nat} (h : n < 0x10000) (next : Char) (rest : Text) :
    fourHex? (Text.hex 4 n ++ next :: rest) = some (n, next :: rest) := by
  have hdigits : Text.hex 4 n = [Text.hexDigit (n / 16 / 16 / 16 % 16),
      Text.hexDigit (n / 16 / 16 % 16), Text.hexDigit (n / 16 % 16), Text.hexDigit (n % 16)] := rfl
  have hvalue : 0x1000 * (n / 16 / 16 / 16 % 16) + 0x100 * (n / 16 / 16 % 16) +
      0x10 * (n / 16 % 16) + n % 16 = n := by omega
  rw [hdigits]
  simp only [List.cons_append, List.nil_append, fourHex?,
    hexValue?_hexDigit _ (Nat.mod_lt _ (by decide)), Option.bind_eq_bind, Option.bind_some,
    Option.pure_def, hvalue]

variable [Alphabet]

/-! ### Escapes -/

section
variable (start : Text) {rest : Text}

theorem string_quote : string start ('"' :: rest) = .ok ([], rest) := by
  rw [string.eq_def]
  rfl

theorem string_plain {c : Char} (hq : c ≠ '"') (hb : c ≠ '\\') (hc : ¬ c.toNat < 0x20) :
    string start (c :: rest) = (string start rest).map fun (t, r) => (c :: t, r) := by
  rw [string.eq_def]
  simp only [if_neg hq, if_neg hb, if_neg hc]

theorem string_escape {e d : Char} (hu : e ≠ 'u') (he : escape? e = some d) :
    string start ('\\' :: e :: rest) = (string start rest).map fun (t, r) => (d :: t, r) := by
  rw [string]
  simp only [if_neg (show '\\' ≠ '"' by decide), if_pos, if_neg hu, he]

theorem string_codePoint {digits : Text} {d : Char}
    (h : codePoint? (digits ++ rest) = some (d, rest)) :
    string start ('\\' :: 'u' :: digits ++ rest) =
      (string start rest).map fun (t, r) => (d :: t, r) := by
  rw [List.cons_append, List.cons_append, string]
  simp only [if_neg (show '\\' ≠ '"' by decide), if_pos]
  split
  · next hn => simp [h] at hn
  · next c rest' hs =>
    obtain ⟨rfl, rfl⟩ := Prod.mk.inj (Option.some.inj (h.symm.trans hs))
    rfl

end

/-- A control character is no surrogate, so it does not matter which escape comes next. -/
theorem codePoint?_hex {n : Nat} (h : n < 0x20) {rest : Text} (hne : rest ≠ []) :
    codePoint? (Text.hex 4 n ++ rest) = some (Char.ofNat n, rest) := by
  have hchar : Alphabet.ofCodePoint n = Char.ofNat n := by
    rw [Alphabet.ofCodePoint, if_neg (by omega)]
  obtain ⟨next, rest, rfl⟩ := List.exists_cons_of_ne_nil hne
  rw [codePoint?, fourHex?_hex (by omega)]
  simp only
  split
  · split
    · rw [if_neg (by omega), hchar]
    · rw [hchar]
  · rw [hchar]

/-! ### Strings -/

theorem string_encodeChar (start : Text) (c : Char) {rest : Text} (hne : rest ≠ []) :
    string start (encodeChar c ++ rest) = (string start rest).map fun (t, r) => (c :: t, r) := by
  unfold encodeChar
  split
  · next h =>
    subst h
    exact string_escape start (by decide) rfl
  split
  · next h =>
    subst h
    exact string_escape start (by decide) rfl
  split
  · next h =>
    subst h
    exact string_escape start (by decide) rfl
  split
  · next h =>
    subst h
    exact string_escape start (by decide) rfl
  split
  · next h =>
    subst h
    exact string_escape start (by decide) rfl
  split
  · next h =>
    subst h
    exact string_escape start (by decide) rfl
  split
  · next h =>
    subst h
    exact string_escape start (by decide) rfl
  split
  · next h =>
    have hc := codePoint?_hex h hne
    rw [Char.ofNat_toNat] at hc
    exact string_codePoint start hc
  · next hq hb _ _ _ _ _ hc => exact string_plain start hq hb hc

theorem string_encode (start text rest : Text) :
    string start (text.flatMap encodeChar ++ '"' :: rest) = .ok (text, rest) := by
  induction text with
  | nil => exact string_quote start
  | cons c text ih =>
    rw [List.flatMap_cons, List.append_assoc, string_encodeChar start c (by simp), ih]
    rfl

end Inlay.Json
