import SignIn.Json.Expect
import SignIn.Proofs.Json.Strings
import SignIn.Proofs.Text.Numerals
/-!
# Values read back

A reader may stand before blanks, and it stops right behind what it reads.  So what a reader makes of a written value
is told of a text whose blanks in front are passed over, and of any rest behind the value (`Inverts`).  Only a number
asks something of the rest: its digits have to end where the value does.
-/
namespace SignIn.Json

/-- **No number goes on with a text:** it begins with no digit, and with no point or exponent. -/
def EndsNumber (t : Text) : Prop := ∀ c r, t = c :: r → c.isDigit = false ∧ c ≠ '.' ∧ c ≠ 'e' ∧ c ≠ 'E'

/-- **A reader reads a written value back,** whatever blanks are before it, and stops behind it. -/
def Inverts {α : Type} (read : Text → Except Stop (α × Text)) (written : Text) (x : α) : Prop :=
  ∀ t r, skipBlanks t = written ++ r → EndsNumber r → read t = .ok (x, r)

/-! ## Numbers -/

/-- Only zero is written with a zero in front. -/
theorem decimal_cons_zero {n : Nat} {w : Text} (h : decimal n = '0' :: w) : w = [] := by
  by_contra hne
  have hw : ∀ c ∈ w, c.isDigit = true := fun c hc => isDigit_of_mem_decimal c (h ▸ List.mem_cons_of_mem _ hc)
  obtain ⟨k, hk⟩ := eq_zeros_append_decimal hw hne
  have hvalue : n = decimalValue w := by
    rw [← decimalValue_decimal n, h]
    rfl
  have hlength := congrArg List.length h
  rw [hk, ← hvalue] at hlength
  simp only [List.length_cons, List.length_append, List.length_replicate] at hlength
  omega

/-- A numeral begins with a digit, which is a zero only where it is all. -/
theorem exists_decimal_eq_cons (n : Nat) :
    ∃ c w, decimal n = c :: w ∧ c.isDigit = true ∧ (c = '0' → w = []) := by
  obtain ⟨c, w, hw⟩ := List.exists_cons_of_ne_nil (decimal_ne_nil n)
  exact ⟨c, w, hw, isDigit_of_mem_decimal c (hw ▸ List.mem_cons_self), fun hc => decimal_cons_zero (hc ▸ hw)⟩

theorem ne_of_isDigit {c k : Char} (hc : c.isDigit = true) (hk : k.isDigit = false) : c ≠ k := by
  rintro rfl
  rw [hc] at hk
  cases hk

theorem isBlank_of_isDigit {c : Char} (hc : c.isDigit = true) : isBlank c = false := by
  simp only [isBlank, Bool.or_eq_false_iff, beq_eq_false_iff_ne]
  exact ⟨⟨⟨ne_of_isDigit hc rfl, ne_of_isDigit hc rfl⟩, ne_of_isDigit hc rfl⟩, ne_of_isDigit hc rfl⟩

/-- The digits at the front end where the numeral does. -/
theorem spanDigits_decimal {n : Nat} {r : Text} (hr : EndsNumber r) : spanDigits (decimal n ++ r) = (decimal n, r) := by
  have hdigits : ∀ c ∈ decimal n, c.isDigit = true := isDigit_of_mem_decimal
  rw [spanDigits, List.takeWhile_append_of_pos hdigits, List.dropWhile_append_of_pos hdigits]
  cases r with
  | nil => simp
  | cons c r =>
    rw [List.takeWhile_cons, List.dropWhile_cons, (hr c r rfl).1, if_neg Bool.false_ne_true, if_neg Bool.false_ne_true,
      List.append_nil]

/-- A zero in front of a numeral is not followed by a digit. -/
theorem leadingZero_decimal {n : Nat} {c : Char} {w r : Text} (hw : decimal n = c :: w) (hr : EndsNumber r) :
    (c = '0' && digitNext (w ++ r)) = false := by
  rcases eq_or_ne c '0' with hc | hc
  · subst hc
    rw [decimal_cons_zero hw, List.nil_append]
    cases r with
    | nil => simp [digitNext]
    | cons c r => simp [digitNext, (hr c r rfl).1]
  · simp [hc]

/-- **Digits whose value fits are gathered to their value.** -/
theorem foldl_integerDigit {w : Text} (hfits : decimalValue w < Nat.pow 2 64) :
    w.foldl Gathered.integerDigit ⟨0, 0, false⟩ = ⟨decimalValue w, 0, false⟩ := by
  induction w using List.reverseRecOn with
  | nil => rfl
  | append_singleton w d ih =>
    have hvalue := decimalValue_append_digit w d
    rw [List.foldl_append, ih (by omega), List.foldl_cons, List.foldl_nil]
    have hpush : Gathered.push? ⟨decimalValue w, 0, false⟩ d = some (decimalValue (w ++ [d])) := by
      have hsum : decimalValue w * 10 + (d.toNat - '0'.toNat) = decimalValue (w ++ [d]) := by
        rw [hvalue, Nat.mul_comm]
        rfl
      rw [Gathered.push?, Bool.false_or, hsum, decide_eq_false (Nat.not_le.2 hfits)]
      rfl
    rw [Gathered.integerDigit, hpush]

/-- **A number of 64 bits is read back.** -/
theorem readNumber_decimal {n : Nat} (hn : n < Nat.pow 2 64) {r : Text} (hr : EndsNumber r) :
    readNumber false (decimal n ++ r) = .ok (.natural n, r) := by
  obtain ⟨c, w, hw, hdigit, -⟩ := exists_decimal_eq_cons n
  have hspan := spanDigits_decimal (n := n) hr
  have hgathered : (decimal n).foldl Gathered.integerDigit ⟨0, 0, false⟩ = ⟨n, 0, false⟩ := by
    have h := foldl_integerDigit (w := decimal n) ((decimalValue_decimal n).symm ▸ hn)
    rwa [decimalValue_decimal] at h
  rw [hw] at hspan hgathered ⊢
  rw [List.cons_append] at hspan ⊢
  rw [readNumber, hdigit, Bool.not_true, if_neg Bool.false_ne_true, leadingZero_decimal hw hr,
    if_neg Bool.false_ne_true, hspan]
  simp only [hgathered]
  cases r with
  | nil => rfl
  | cons k r =>
    obtain ⟨-, hpoint, he, hE⟩ := hr k r rfl
    split
    · exact absurd (List.cons.inj ‹_›).1 hpoint
    · exact absurd (List.cons.inj ‹_›).1 he
    · exact absurd (List.cons.inj ‹_›).1 hE
    · rfl

/-- **A number of 32 bits is read back.** -/
theorem inverts_readInteger {bound : Nat} (hbound : bound ≤ Nat.pow 2 64) (expected : Text) (n : Fin bound) :
    Inverts (readInteger bound expected) (decimal n) n := by
  intro t r ht hr
  obtain ⟨c, w, hw, hdigit, -⟩ := exists_decimal_eq_cons n
  have hread := readNumber_decimal (Nat.lt_of_lt_of_le n.isLt hbound) hr
  rw [hw, List.cons_append] at ht hread
  have hminus : c ≠ '-' := ne_of_isDigit hdigit rfl
  rw [readInteger, ht]
  simp only [hdigit, if_true, hread, bind, Except.bind, dif_pos n.isLt, pure, Except.pure]

/-- **A natural number of any size is read back.** -/
theorem readBounded_decimal {bound : Nat} (n : Fin bound) {r : Text} (hr : EndsNumber r) :
    readBounded bound (decimal n ++ r) = .ok (n, r) := by
  obtain ⟨c, w, hw, hdigit, -⟩ := exists_decimal_eq_cons n
  have hspan := spanDigits_decimal (n := n) hr
  have hfits : decimalValue (decimal n) < bound := by
    rw [decimalValue_decimal]
    exact n.isLt
  have hvalue := decimalValue_decimal n
  rw [hw] at hspan hfits hvalue ⊢
  rw [List.cons_append] at hspan ⊢
  rw [readBounded, if_neg (ne_of_isDigit hdigit rfl), hdigit, Bool.not_true, if_neg Bool.false_ne_true,
    leadingZero_decimal hw hr, if_neg Bool.false_ne_true, hspan]
  simp only [hvalue, dif_pos n.isLt]

/-! ## Strings and nulls -/

theorem readText_quoted {s t r : Text} (ht : skipBlanks t = quoted s ++ r) : readText t = .ok (s, r) := by
  rw [quoted_append] at ht
  rw [readText, ht]
  exact readString_quoted s r

/-- **A string is read back.** -/
theorem inverts_readText (s : Text) : Inverts readText (quoted s) s := fun _ _ ht _ => readText_quoted ht

/-- **What is read back may be allowed to be null,** unless it looks like it. -/
theorem Inverts.readNullable {α : Type} {read : Text → Except Stop (α × Text)} {w : Text} {x : α}
    (h : Inverts read w x) (hw : ∃ c v, w = c :: v ∧ c ≠ 'n' ∧ isBlank c = false) :
    Inverts (readNullable read) w (some x) := by
  intro t r ht hr
  obtain ⟨c, v, rfl, hn, hblank⟩ := hw
  have hread := h (c :: v ++ r) r (skipBlanks_cons hblank _) hr
  rw [Json.readNullable, ht, List.cons_append]
  rw [List.cons_append] at hread
  split
  · exact absurd (List.cons.inj ‹_›).1 hn
  · rw [hread]
    rfl

end SignIn.Json
