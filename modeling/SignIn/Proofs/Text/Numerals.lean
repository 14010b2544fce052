import Mathlib.Data.List.Induction
import SignIn.Proofs.Text.Characters
/-!
# Decimal numerals

A number has one numeral without leading zeros, `decimal n`.  Any digits are that of their value, after some zeros.
-/
namespace SignIn

theorem decimalValue_decimal (n : Nat) : decimalValue (decimal n) = n := Nat.ofDigitChars_ten_toDigits

theorem decimal_injective {m n : Nat} (h : decimal m = decimal n) : m = n := by
  rw [← decimalValue_decimal m, h, decimalValue_decimal]

theorem decimal_ne_nil (n : Nat) : decimal n ≠ [] := Nat.toDigits_ne_nil

/-- One digit more. -/
theorem decimalValue_append_digit (w : Text) (d : Char) : decimalValue (w ++ [d]) = 10 * decimalValue w + (d.toNat - 48) := by
  rw [decimalValue, Nat.ofDigitChars_append, Nat.ofDigitChars_cons, Nat.ofDigitChars_nil, decimalValue]
  rfl

theorem decimal_digit {d : Char} (hd : d.isDigit = true) : decimal (d.toNat - 48) = [d] := by
  rw [isDigit_iff] at hd
  rw [decimal, Nat.toDigits_of_lt_base (by omega), List.singleton_inj, ← Char.toNat_inj,
    Nat.toNat_digitChar_of_lt_ten (by omega)]
  omega

theorem isDigit_of_mem_decimal {n : Nat} : ∀ c ∈ decimal n, c.isDigit = true :=
  fun _ hc => Nat.isDigit_of_mem_toDigits (by decide) (by decide) hc

/-- **Digits are the numeral of their value, after some zeros.** -/
theorem eq_zeros_append_decimal {w : Text} (hw : ∀ c ∈ w, c.isDigit = true) (hne : w ≠ []) :
    ∃ k, w = List.replicate k '0' ++ decimal (decimalValue w) := by
  induction w using List.reverseRecOn with
  | nil => exact absurd rfl hne
  | append_singleton w d ih =>
    rw [List.forall_mem_append, List.forall_mem_singleton] at hw
    have hd := decimal_digit hw.2
    by_cases hnil : w = []
    · subst hnil
      refine ⟨0, ?_⟩
      have hvalue : decimalValue ([] ++ [d]) = d.toNat - 48 := by
        rw [decimalValue_append_digit]
        exact Nat.zero_add _
      rw [hvalue, hd]
      rfl
    obtain ⟨k, hk⟩ := ih hw.1 hnil
    rw [decimalValue_append_digit]
    by_cases hzero : decimalValue w = 0
    · -- all digits before the last are zeros
      rw [hzero, show decimal 0 = ['0'] from rfl] at hk
      refine ⟨k + 1, ?_⟩
      rw [hzero, Nat.mul_zero, Nat.zero_add, hd, List.replicate_succ', ← hk]
    · refine ⟨k, ?_⟩
      have hlt : d.toNat - 48 < 10 := by
        have := (isDigit_iff d).1 hw.2
        omega
      rw [decimal, ← Nat.toDigits_append_toDigits (by decide) (Nat.pos_of_ne_zero hzero) hlt, ← List.append_assoc]
      exact congrArg₂ (· ++ ·) hk hd.symm

end SignIn
