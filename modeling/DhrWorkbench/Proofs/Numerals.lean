import DhrWorkbench.Json.Reader
import Mathlib.Data.Nat.Digits.Lemmas

/-!
# Decimal numerals

The digits that `Text.ofNat` puts down are those of the number in base ten, so they spell the
number (`digitsValue_ofNat`), the first of them is no zero unless the number is zero, and their
count lies between two powers of ten (`digitCount_le_iff`). A zero more at the end makes one
digit more (`digitCount_mul_pow`).
-/

namespace DhrWorkbench

namespace Text

/-- The digits of a numeral, which are those of ASCII. -/
def IsNumeral (t : Text) : Prop := ∀ c ∈ t, Json.isAsciiDigit c

theorem digit_val {d : ℕ} (h : d < 10) : (digit d).val = 48 + d := by
  simp only [digit, CodePoint.ofNat, Fin.ofNat]
  omega

theorem isAsciiDigit_digit {d : ℕ} (h : d < 10) : Json.isAsciiDigit (digit d) := by
  simp only [Json.isAsciiDigit, digit_val h, Bool.and_eq_true, decide_eq_true_eq]
  omega

theorem digitValue?_digit {d : ℕ} (h : d < 10) : digitValue? (digit d) = some d := by
  have hz : zeros.find? (fun z => decide (z ≤ (digit d).val ∧ (digit d).val < z + 10))
      = some 48 := by
    rw [digit_val h, zeros, List.find?_cons_of_pos]
    simp only [decide_eq_true_eq]
    omega
  rw [digitValue?, hz, Option.map_some, digit_val h, Nat.add_sub_cancel_left]

theorem digitsOnto_eq : ∀ {fuel n : ℕ} (acc : Text), 0 < n → n < 10 ^ fuel →
    digitsOnto fuel n acc = ((Nat.digits 10 n).map digit).reverse ++ acc
  | 0, n, acc, hpos, hn => by
    rw [pow_zero] at hn
    omega
  | fuel + 1, n, acc, hpos, hn => by
    rw [digitsOnto]
    split
    · rename_i hlt
      rw [Nat.digits_of_lt 10 n (by omega) hlt]
      rfl
    · rename_i hge
      have hdiv : n / 10 < 10 ^ fuel := by
        rw [pow_succ] at hn
        omega
      have hdigits : Nat.digits 10 n = n % 10 :: Nat.digits 10 (n / 10) :=
        Nat.digits_eq_cons_digits_div (by decide) (by omega)
      rw [digitsOnto_eq _ (by omega) hdiv, hdigits]
      simp

theorem ofNat_eq {n : ℕ} (h : 0 < n) : ofNat n = ((Nat.digits 10 n).map digit).reverse := by
  have hlt : n < 10 ^ (n.log2 + 1) :=
    lt_of_lt_of_le Nat.lt_log2_self (Nat.pow_le_pow_left (by decide) _)
  rw [ofNat, digitsOnto_eq [] h hlt, List.append_nil]

theorem ofNat_zero : ofNat 0 = [digit 0] := rfl

theorem isNumeral_ofNat (n : ℕ) : IsNumeral (ofNat n) := by
  rcases Nat.eq_zero_or_pos n with rfl | h
  · intro c hc
    rw [ofNat_zero, List.mem_singleton] at hc
    subst hc
    exact isAsciiDigit_digit (by decide)
  · intro c hc
    rw [ofNat_eq h, List.mem_reverse, List.mem_map] at hc
    obtain ⟨d, hd, rfl⟩ := hc
    exact isAsciiDigit_digit (Nat.digits_lt_base (by decide) hd)

theorem ofNat_ne_nil (n : ℕ) : ofNat n ≠ [] := by
  rcases Nat.eq_zero_or_pos n with rfl | h
  · simp [ofNat_zero]
  · simp [ofNat_eq h, Nat.digits_ne_nil_iff_ne_zero, h.ne']

/-- A numeral of a positive number starts with another digit than zero. -/
theorem head?_ofNat {n : ℕ} (h : 0 < n) : (ofNat n).head? ≠ some (digit 0) := by
  have hne : Nat.digits 10 n ≠ [] := Nat.digits_ne_nil_iff_ne_zero.2 h.ne'
  have hlast : (Nat.digits 10 n).getLast hne < 10 :=
    Nat.digits_lt_base (by decide) (List.getLast_mem hne)
  have hzero : (Nat.digits 10 n).getLast hne ≠ 0 := Nat.getLast_digit_ne_zero 10 h.ne'
  rw [ofNat_eq h, List.head?_reverse, List.getLast?_map, List.getLast?_eq_some_getLast hne]
  intro heq
  have hval := congrArg Fin.val (Option.some.inj heq)
  rw [digit_val hlast, digit_val (by decide)] at hval
  omega

theorem foldl_digits (t : Text) : ∀ n : ℕ,
    t.foldl (fun n c => 10 * n + (digitValue? c).getD 0) n = n * 10 ^ t.length + digitsValue t := by
  induction t with
  | nil => simp [digitsValue]
  | cons c t ih =>
    intro n
    rw [digitsValue, List.foldl_cons, List.foldl_cons, ih, ih (10 * 0 + _), List.length_cons,
      pow_succ]
    ring

theorem digitsValue_append (s t : Text) :
    digitsValue (s ++ t) = digitsValue s * 10 ^ t.length + digitsValue t := by
  rw [digitsValue, List.foldl_append, foldl_digits]
  rfl

theorem digitsValue_reverse_digits : ∀ {ds : List ℕ}, (∀ d ∈ ds, d < 10) →
    digitsValue (ds.map digit).reverse = Nat.ofDigits 10 ds
  | [], _ => rfl
  | d :: ds, h => by
    have hd : d < 10 := h d List.mem_cons_self
    have ih := digitsValue_reverse_digits fun e he => h e (List.mem_cons_of_mem _ he)
    have hone : digitsValue [digit d] = d := by simp [digitsValue, digitValue?_digit hd]
    rw [List.map_cons, List.reverse_cons, digitsValue_append, ih, hone, Nat.ofDigits_cons]
    simp only [List.length_singleton, pow_one]
    ring

theorem digitsValue_ofNat (n : ℕ) : digitsValue (ofNat n) = n := by
  rcases Nat.eq_zero_or_pos n with rfl | h
  · decide
  · rw [ofNat_eq h, digitsValue_reverse_digits fun _ => Nat.digits_lt_base (by decide),
      Nat.ofDigits_digits]

end Text

namespace Decimal

theorem digitCount_eq {n : ℕ} (h : 0 < n) : digitCount n = (Nat.digits 10 n).length := by
  rw [digitCount, Text.ofNat_eq h, List.length_reverse, List.length_map]

theorem digitCount_le_iff {n k : ℕ} (h : 0 < n) : digitCount n ≤ k ↔ n < 10 ^ k := by
  rw [digitCount_eq h, Nat.digits_length_le_iff (by decide)]

theorem digitCount_mul_pow {n : ℕ} (h : 0 < n) (k : ℕ) :
    digitCount (n * 10 ^ k) = digitCount n + k := by
  rw [digitCount_eq (by positivity), digitCount_eq h, mul_comm,
    Nat.digits_base_pow_mul (by decide) h, List.length_append, List.length_replicate, add_comm]

end Decimal

end DhrWorkbench
