import SignIn.Text.Basic
/-!
# Characters by their codes

The tests of characters, and the change of case, told of code points, where they are matters of arithmetic.
-/
namespace SignIn

theorem isDigit_iff (c : Char) : c.isDigit = true ↔ 48 ≤ c.toNat ∧ c.toNat ≤ 57 := by
  simp [Char.isDigit, UInt32.le_iff_toNat_le]

theorem isUpper_iff (c : Char) : c.isUpper = true ↔ 65 ≤ c.toNat ∧ c.toNat ≤ 90 := by
  change decide (c.val ≥ 65 ∧ c.val ≤ 90) = true ↔ _
  simp [UInt32.le_iff_toNat_le]

theorem isLower_iff (c : Char) : c.isLower = true ↔ 97 ≤ c.toNat ∧ c.toNat ≤ 122 := by
  change (decide (c.val ≥ 97) && decide (c.val ≤ 122)) = true ↔ _
  simp [UInt32.le_iff_toNat_le]

theorem isAlpha_iff (c : Char) :
    c.isAlpha = true ↔ (65 ≤ c.toNat ∧ c.toNat ≤ 90) ∨ (97 ≤ c.toNat ∧ c.toNat ≤ 122) := by
  change (c.isUpper || c.isLower) = true ↔ _
  rw [Bool.or_eq_true, isUpper_iff, isLower_iff]

theorem isHexDigit_iff (c : Char) : isHexDigit c = true ↔
    (48 ≤ c.toNat ∧ c.toNat ≤ 57) ∨ (97 ≤ c.toNat ∧ c.toNat ≤ 102) ∨ (65 ≤ c.toNat ∧ c.toNat ≤ 70) := by
  simp only [isHexDigit, Bool.or_eq_true, isDigit_iff, Bool.and_eq_true, decide_eq_true_eq, or_assoc]
  rfl

theorem toNat_toLower (c : Char) :
    c.toLower.toNat = if 65 ≤ c.toNat ∧ c.toNat ≤ 90 then c.toNat + 32 else c.toNat := by
  have hA : ('A' : Char).val.toNat = 65 := rfl
  have hZ : ('Z' : Char).val.toNat = 90 := rfl
  have hshift : (('a' : Char).val - ('A' : Char).val).toNat = 32 := rfl
  unfold Char.toLower
  simp only [ge_iff_le, UInt32.le_iff_toNat_le, Char.toNat_val, hA, hZ]
  split
  · rename_i h
    rw [← Char.toNat_val, UInt32.toNat_add, hshift, Char.toNat_val]
    omega
  · rfl

theorem toNat_toUpper (c : Char) :
    c.toUpper.toNat = if 97 ≤ c.toNat ∧ c.toNat ≤ 122 then c.toNat - 32 else c.toNat := by
  have ha : ('a' : Char).val.toNat = 97 := rfl
  have hz : ('z' : Char).val.toNat = 122 := rfl
  have hshift : (('A' : Char).val - ('a' : Char).val).toNat = 2 ^ 32 - 32 := rfl
  unfold Char.toUpper
  simp only [UInt32.le_iff_toNat_le, Char.toNat_val, ha, hz]
  split
  · rename_i h
    rw [← Char.toNat_val, UInt32.toNat_add, hshift, Char.toNat_val]
    omega
  · rfl

/-- Only a letter is changed by folding, and only a letter comes of it. -/
theorem toLower_eq_iff {c k : Char} (hk : k.isAlpha = false) : c.toLower = k ↔ c = k := by
  rw [← Bool.not_eq_true, isAlpha_iff] at hk
  rw [← Char.toNat_inj, ← Char.toNat_inj, toNat_toLower]
  split <;> omega

/-- **A text without letters is folded from itself only.** -/
theorem foldCase_eq_iff {t : Text} (ht : ∀ c ∈ t, c.isAlpha = false) {x : Text} : foldCase x = foldCase t ↔ x = t := by
  induction t generalizing x with
  | nil => simp [foldCase]
  | cons k t ih =>
    rw [List.forall_mem_cons] at ht
    cases x with
    | nil => simp [foldCase]
    | cons c x =>
      have hk : k.toLower = k := (toLower_eq_iff ht.1).2 rfl
      simp only [foldCase, List.map_cons, List.cons.injEq] at ih ⊢
      rw [hk, toLower_eq_iff ht.1, ih ht.2]

end SignIn
