import SignIn.Json.Reader
import SignIn.Proofs.Text.Characters
/-!
# Strings between quotation marks

What the writer puts between quotation marks is read back as it was (`readString_quoted`): every character is written
so that reading it takes that one character off, whether it stands for itself, has a short escape, or is written by
its code.
-/
namespace SignIn.Json

/-! ## Blanks -/

/-- Blanks before a character that is none are all that is passed over. -/
theorem skipBlanks_append {pad : Text} (hpad : ∀ c ∈ pad, isBlank c = true) (t : Text) :
    skipBlanks (pad ++ t) = skipBlanks t :=
  List.dropWhile_append_of_pos hpad

theorem skipBlanks_cons {c : Char} (hc : isBlank c = false) (t : Text) : skipBlanks (c :: t) = c :: t := by
  rw [skipBlanks, List.dropWhile_cons, if_neg (Bool.not_eq_true _ ▸ hc)]

/-- **What stands before an item is blank.** -/
theorem isBlank_of_mem_break {l : Layout} {depth : Nat} : ∀ c ∈ l.break depth, isBlank c = true := by
  intro c hc
  cases l with
  | compact => cases hc
  | pretty =>
    rcases List.mem_cons.1 hc with rfl | hc
    · rfl
    · rw [List.eq_of_mem_replicate hc]
      rfl

/-! ## Escapes -/

theorem utf8Length_cons (c : Char) (t : Text) : utf8Length (c :: t) = c.utf8Size + utf8Length t := rfl

/-- The letter of a short escape leads back to its character. -/
theorem shortEscape?_of_mem : ∀ e ∈ shortEscapes, shortEscape? e.2 = some e.1 := by decide

/-- The code of a control character is two zeros and two digits. -/
theorem alignRight_hexadecimal : ∀ n < 32, alignRight '0' 4 (hexadecimal n) =
    ['0', '0', Nat.digitChar (n / 16), Nat.digitChar (n % 16)] := by decide

theorem hexValue?_digitChar : ∀ n < 16, hexValue? (Nat.digitChar n) = some n := by decide

/-- **The code of a control character is read back.** -/
theorem readHex_alignRight {n : Nat} (hn : n < 32) (t : Text) :
    readHex (alignRight '0' 4 (hexadecimal n) ++ t) = .ok (n, t) := by
  rw [alignRight_hexadecimal n hn]
  have hlong : ¬utf8Length (['0', '0', Nat.digitChar (n / 16), Nat.digitChar (n % 16)] ++ t) < 4 := by
    have h₁ := Char.utf8Size_pos (Nat.digitChar (n / 16))
    have h₂ := Char.utf8Size_pos (Nat.digitChar (n % 16))
    have h₀ : ('0' : Char).utf8Size = 1 := rfl
    simp only [List.cons_append, List.nil_append, utf8Length_cons, h₀]
    omega
  have hdigits : (['0', '0', Nat.digitChar (n / 16), Nat.digitChar (n % 16)] : Text).mapM hexValue? =
      some [0, 0, n / 16, n % 16] := by
    simp only [List.mapM_cons, List.mapM_nil, hexValue?_digitChar (n / 16) (by omega),
      hexValue?_digitChar (n % 16) (by omega), show hexValue? '0' = some 0 from rfl]
    rfl
  rw [readHex, if_neg hlong]
  simp only [List.cons_append, List.nil_append, List.take_succ_cons, List.take_zero, hdigits, List.drop_succ_cons,
    List.drop_zero]
  rw [show ((0 * 16 + 0) * 16 + n / 16) * 16 + n % 16 = n by omega]

/-- **A control character is read back from its code.** -/
theorem readEscape_code {c : Char} (hc : c.toNat < 32) (t : Text) :
    readEscape ('u' :: (alignRight '0' 4 (hexadecimal c.toNat) ++ t)) = .ok (c, t) := by
  have hletter : shortEscape? 'u' = none := by decide
  have htrailing : isTrailing c.toNat = false := by
    rw [isTrailing, Bool.and_eq_false_iff, decide_eq_false_iff_not]
    exact .inl (by omega)
  have hleading : isLeading c.toNat = false := by
    rw [isLeading, Bool.and_eq_false_iff, decide_eq_false_iff_not]
    exact .inl (by omega)
  simp only [readEscape, hletter, if_true, readHex_alignRight hc, bind, Except.bind, htrailing, hleading,
    Bool.false_eq_true, if_false, pure, Except.pure, Char.ofNat_toNat]

/-! ## Strings -/

theorem readString_end (t : Text) : readString ('"' :: t) = .ok ([], t) := by
  rw [readString, if_pos rfl]

/-- A backslash and what it escapes are one character. -/
theorem readString_escape {t r : Text} {c : Char} (h : readEscape t = .ok (c, r)) :
    readString ('\\' :: t) = (readString r).map fun p => (c :: p.1, p.2) := by
  rw [readString, if_neg (by decide), if_pos rfl]
  split
  · rename_i heq
    rw [h] at heq
    cases heq
  · rename_i heq
    rw [h] at heq
    cases heq
    rfl

theorem readString_plain {c : Char} (hquote : c ≠ '"') (hslash : c ≠ '\\') (hcode : ¬c.toNat < 0x20) (t : Text) :
    readString (c :: t) = (readString t).map fun p => (c :: p.1, p.2) := by
  rw [readString, if_neg hquote, if_neg hslash, if_neg hcode]

/-- **A character as it is written is read back,** and nothing else is read with it. -/
theorem readString_escapedChar (c : Char) (t : Text) :
    readString (escapedChar c ++ t) = (readString t).map fun p => (c :: p.1, p.2) := by
  rcases hshort : shortEscapes.find? (·.1 == c) with - | e
  · have hquote : c ≠ '"' := by
      rintro rfl
      exact absurd hshort (by decide)
    have hslash : c ≠ '\\' := by
      rintro rfl
      exact absurd hshort (by decide)
    by_cases hcode : c.toNat < 0x20
    · rw [escapedChar, hshort]
      simp only [if_pos hcode]
      exact readString_escape (readEscape_code hcode t)
    · rw [escapedChar, hshort]
      simp only [if_neg hcode]
      exact readString_plain hquote hslash hcode t
  · have hc : e.1 = c := by simpa using List.find?_some hshort
    have hletter : shortEscape? e.2 = some c := hc ▸ shortEscape?_of_mem e (List.mem_of_find?_eq_some hshort)
    have hread : readEscape (e.2 :: t) = .ok (c, t) := by rw [readEscape, hletter]
    rw [escapedChar, hshort]
    exact readString_escape hread

/-- **A string is read back from between its quotation marks.** -/
theorem readString_quoted (s t : Text) : readString (s.flatMap escapedChar ++ '"' :: t) = .ok (s, t) := by
  induction s with
  | nil => exact readString_end t
  | cons c s ih => rw [List.flatMap_cons, List.append_assoc, readString_escapedChar, ih]; rfl

theorem quoted_append (s t : Text) : quoted s ++ t = '"' :: (s.flatMap escapedChar ++ '"' :: t) := by
  simp [quoted]

end SignIn.Json
