import Inlay.Number.Reading
import Mathlib.Algebra.Group.Nat.Defs

/-!
# Decimals

How large a number can be that is read from a limited number of digits, and the digits of a number
that is written: reading takes exactly these digits from the start of a text and gives the number
back (`digitRun_toDigits`, `digitsValue_toDigits`).
-/

namespace Inlay

/-- The least number with too many digits to be read. -/
def digitBound : Nat := 10 ^ digitLimit

theorem two_lt_digitBound : 2 < digitBound :=
  calc 2 < 10 ^ 1 := by decide
    _ ≤ digitBound := Nat.pow_le_pow_right (by decide) (by decide)

/-- Digits that are read after a number, from the most significant one on. -/
theorem foldl_digits_lt {value : Char → Nat} {digits : Text} (h : ∀ c ∈ digits, value c ≤ 9)
    (n : Nat) :
    digits.foldl (fun n c => 10 * n + value c) n < (n + 1) * 10 ^ digits.length := by
  induction digits generalizing n with
  | nil => simp
  | cons c rest ih =>
    have hc := h c (List.mem_cons_self ..)
    have hrest := ih (fun d hd => h d (List.mem_cons_of_mem _ hd)) (10 * n + value c)
    have hstep : 10 * n + value c + 1 ≤ (n + 1) * 10 := by omega
    have hle : (10 * n + value c + 1) * 10 ^ rest.length ≤ (n + 1) * 10 ^ (rest.length + 1) :=
      calc (10 * n + value c + 1) * 10 ^ rest.length
          ≤ (n + 1) * 10 * 10 ^ rest.length := Nat.mul_le_mul_right _ hstep
        _ = (n + 1) * 10 ^ (rest.length + 1) := by
          rw [Nat.mul_assoc, Nat.pow_succ, Nat.mul_comm (10 ^ rest.length)]
    exact Nat.lt_of_lt_of_le hrest hle

theorem foldl_digits_lt_bound {value : Char → Nat} {digits : Text}
    (h : ∀ c ∈ digits, value c ≤ 9) (hlen : digits.length ≤ digitLimit) :
    digits.foldl (fun n c => 10 * n + value c) 0 < digitBound := by
  have hlt := foldl_digits_lt h 0
  rw [Nat.zero_add, Nat.one_mul] at hlt
  exact Nat.lt_of_lt_of_le hlt (Nat.pow_le_pow_right (by decide) hlen)

namespace Binary64

theorem le_nine_of_isDigit {c : Char} (h : c.isDigit = true) : c.toNat - '0'.toNat ≤ 9 := by
  simp only [Char.isDigit, Bool.and_eq_true, decide_eq_true_eq] at h
  have hle : c.toNat ≤ 57 := UInt32.le_iff_toNat_le.1 h.2
  have hzero : '0'.toNat = 48 := rfl
  omega

theorem isDigit_of_mem_digitRun {text : Text} {c : Char} (h : c ∈ (digitRun text).1) :
    c.isDigit = true := by
  simp only [digitRun] at h
  exact List.all_eq_true.1 List.all_takeWhile c h

theorem digitsValue_lt {digits : Text} (h : ∀ c ∈ digits, c.isDigit = true)
    (hlen : digits.length ≤ digitLimit) : digitsValue digits < digitBound :=
  foldl_digits_lt_bound (fun c hc => le_nine_of_isDigit (h c hc)) hlen

/-! ### Written numbers -/

theorem isDigit_of_mem_toDigits {n : Nat} {c : Char} (h : c ∈ Nat.toDigits 10 n) :
    c.isDigit = true :=
  Nat.isDigit_of_mem_toDigits (by decide) (by decide) h

theorem digitsValue_toDigits (n : Nat) : digitsValue (Nat.toDigits 10 n) = n :=
  Nat.ofDigitChars_ten_toDigits

theorem length_toDigits {n : Nat} (h : n < digitBound) :
    (Nat.toDigits 10 n).length ≤ digitLimit :=
  (Nat.length_toDigits_le_iff (by decide) (by decide)).2 h

/-- No digit goes on a number that is followed by something else. -/
theorem digitRun_toDigits (n : Nat) {rest : Text} (h : ∀ c ∈ rest.head?, c.isDigit = false) :
    digitRun (Nat.toDigits 10 n ++ rest) = (Nat.toDigits 10 n, rest) := by
  have hall : ∀ c ∈ Nat.toDigits 10 n, c.isDigit = true := fun c hc => isDigit_of_mem_toDigits hc
  have htake : rest.takeWhile Char.isDigit = [] := by
    cases rest with
    | nil => rfl
    | cons c rest => rw [List.takeWhile_cons, h c rfl]; rfl
  have hdrop : rest.dropWhile Char.isDigit = rest := by
    cases rest with
    | nil => rfl
    | cons c rest => rw [List.dropWhile_cons, h c rfl]; rfl
  rw [digitRun, List.takeWhile_append_of_pos hall, List.dropWhile_append_of_pos hall, htake, hdrop,
    List.append_nil]

/-- Only zero is written with a zero in front. -/
theorem head_toDigits {n : Nat} (h : n ≠ 0) {rest : Text} :
    Nat.toDigits 10 n ≠ '0' :: rest := by
  induction n using Nat.strongRecOn generalizing rest with
  | _ n ih =>
    rw [Nat.toDigits_eq_if (by decide)]
    split
    · intro he
      simp [h] at he
    · next hge =>
      have hdiv : n / 10 ≠ 0 := by omega
      obtain ⟨d, digits, hd⟩ : ∃ d digits, Nat.toDigits 10 (n / 10) = d :: digits :=
        List.exists_cons_of_ne_nil Nat.toDigits_ne_nil
      rw [hd]
      intro he
      simp only [List.cons_append, List.cons.injEq] at he
      exact ih (n / 10) (by omega) hdiv (hd.trans (by rw [he.1]))

end Binary64

end Inlay
