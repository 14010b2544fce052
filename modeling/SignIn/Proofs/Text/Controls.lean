import Mathlib.Tactic.SplitIfs
import SignIn.Text.Escaped
/-!
# Controls do not get through

What stands in a listing or a trace beside the names of rules and terminals is fixed text, numbers, and text of the
input or of literals that has been escaped.  None of it holds a control character, whatever the input and the literals
hold.
-/
namespace SignIn

variable {k c : Char} {n width : Nat} {fill : Char} {t u : Text}

theorem ne_of_printable (hk : isControl k = true) (hc : isControl c = false) : k ≠ c := by
  rintro rfl
  rw [hk] at hc
  cases hc

/-- **A text without controls** does not hold one. -/
theorem not_mem_of_printable (hk : isControl k = true) (ht : t.all (fun c => !isControl c) = true) : k ∉ t := by
  intro hmem
  have hprintable := List.all_eq_true.1 ht k hmem
  rw [hk] at hprintable
  cases hprintable

theorem not_mem_append (ht : k ∉ t) (hu : k ∉ u) : k ∉ t ++ u := by
  rw [List.mem_append]
  exact not_or_intro ht hu

/-! ## Numbers and columns -/

theorem isControl_digitChar : ∀ i < 16, isControl (Nat.digitChar i) = false := by decide

theorem not_mem_toDigits {base : Nat} (hk : isControl k = true) (hone : 1 < base) (hle : base ≤ 16) (n : Nat) :
    k ∉ Nat.toDigits base n := by
  have hdigit : ∀ i < base, k ∉ [Nat.digitChar i] := fun i hi hmem =>
    ne_of_printable hk (isControl_digitChar i (Nat.lt_of_lt_of_le hi hle)) (List.mem_singleton.1 hmem)
  induction n using Nat.strongRecOn with
  | _ n ih =>
    rw [Nat.toDigits_eq_if hone]
    split
    · exact hdigit n ‹_›
    · have hpos : 0 < n := by omega
      exact not_mem_append (ih _ (Nat.div_lt_self hpos hone)) (hdigit _ (Nat.mod_lt _ (by omega)))

theorem not_mem_decimal (hk : isControl k = true) : k ∉ decimal n := not_mem_toDigits hk (by decide) (by decide) n

theorem not_mem_hexadecimal (hk : isControl k = true) : k ∉ hexadecimal n :=
  not_mem_toDigits hk (by decide) (by decide) n

theorem not_mem_alignLeft (hk : isControl k = true) (ht : k ∉ t) : k ∉ alignLeft width t :=
  not_mem_append ht fun hmem => ne_of_printable hk rfl (List.eq_of_mem_replicate hmem)

theorem not_mem_alignRight (hk : isControl k = true) (hfill : isControl fill = false) (ht : k ∉ t) :
    k ∉ alignRight fill width t :=
  not_mem_append (fun hmem => ne_of_printable hk hfill (List.eq_of_mem_replicate hmem)) ht

/-! ## Escapes -/

/-- **A control has no printed form.** -/
theorem isUnprintable_of_isControl (hc : isControl c = true) : isUnprintable c = true := by
  simp only [isControl, Bool.or_eq_true, Bool.and_eq_true, decide_eq_true_eq] at hc
  have hin : inRanges unprintableRanges c = true := by
    refine List.any_eq_true.2 ?_
    rcases hc with hlow | hhigh
    · exact ⟨(0x0, 0x1F), List.mem_cons_self, by simp; omega⟩
    · exact ⟨(0x7F, 0xA0), List.mem_cons_of_mem _ List.mem_cons_self, by simp; omega⟩
  have hnot : (decide (0x20 ≤ c.toNat) && decide (c.toNat ≤ 0x7e)) = false := by
    rw [Bool.and_eq_false_iff, decide_eq_false_iff_not, decide_eq_false_iff_not]
    omega
  rw [isUnprintable, hnot, hin]
  rfl

theorem isControl_short {e : Escaping} {s : Char} (h : e.short? c = some s) : isControl s = false := by
  unfold Escaping.short? at h
  split_ifs at h <;> injection h <;> subst s <;> first | rfl | simp_all [isControl]

/-- **No escape of a character holds a control.** -/
theorem not_mem_escape (hk : isControl k = true) (e : Escaping) (c : Char) : k ∉ e.char c := by
  unfold Escaping.char
  cases hs : e.short? c with
  | some s =>
    refine not_mem_append (t := ['\x5c']) (not_mem_of_printable hk rfl) fun hmem => ?_
    exact ne_of_printable hk (isControl_short hs) (List.mem_singleton.1 hmem)
  | none =>
    dsimp only
    split
    · exact not_mem_append (not_mem_append (not_mem_of_printable hk rfl) (not_mem_hexadecimal hk))
        (not_mem_of_printable hk rfl)
    · rename_i hkept
      rw [List.mem_singleton]
      rintro rfl
      exact hkept (by simp [isUnprintable_of_isControl hk])

theorem not_mem_escaped (hk : isControl k = true) : k ∉ escaped t := by
  simp only [escaped, List.mem_flatMap, not_exists, not_and]
  exact fun c _ => not_mem_escape hk _ c

theorem not_mem_controlsEscaped (hk : isControl k = true) : k ∉ controlsEscaped t := by
  simp only [controlsEscaped, List.mem_flatMap, not_exists, not_and]
  intro c _
  split
  · exact not_mem_escape hk _ c
  · rename_i hc
    rw [List.mem_singleton]
    rintro rfl
    exact hc hk

end SignIn
