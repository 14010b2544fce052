import SignIn.Proofs.Match.Step
/-!
# What stands at an offset

Offsets count characters, and an operator that reads the input looks at what is left of it from its offset on.  So
the input at an offset is a list, `input.toList.drop o`, and what a range or a literal reads is told of its first
characters.
-/
namespace SignIn

theorem getElem?_eq_head? (input : Array Char) (o : Nat) : input[o]? = (input.toList.drop o).head? := by
  rw [List.head?_drop, Array.getElem?_toList]

/-- A character at an offset, and the rest after it. -/
theorem drop_eq_cons {input : Array Char} {o : Nat} {c : Char} :
    input[o]? = some c ↔ input.toList.drop o = c :: input.toList.drop (o + 1) := by
  rw [getElem?_eq_head?]
  constructor
  · intro h
    rw [← List.tail_drop]
    exact List.eq_cons_of_mem_head? (by rw [h]; rfl)
  · intro h
    rw [h]
    rfl

theorem phraseText_eq (input : Array Char) (o n : Nat) : phraseText input o n = (input.toList.drop o).take n := by
  rw [phraseText, Array.toList_extract, List.extract_eq_take_drop, Nat.add_sub_cancel_left]

namespace Engine

/-- **A literal stands at an offset** if the characters there, folded, are its own. -/
theorem standsAt_iff (fold : Char → Char) (input : Array Char) :
    ∀ (t : Text) (o : Nat), standsAt fold input o t = true ↔ (phraseText input o t.length).map fold = t
  | [], o => by simp [standsAt, phraseText_eq]
  | c :: t, o => by
    unfold standsAt
    cases h : input[o]? with
    | none =>
      have hd : input.toList.drop o = [] := by
        rw [getElem?_eq_head?] at h
        exact List.head?_eq_none_iff.1 h
      simp [phraseText_eq, hd]
    | some d =>
      have hd := drop_eq_cons.1 h
      dsimp only
      rw [Bool.and_eq_true, standsAt_iff fold input t (o + 1), phraseText_eq, phraseText_eq, hd, beq_iff_eq]
      simp

theorem literal_of_window {input : Array Char} {t : Text} {o : Nat} (h : phraseText input o t.length = t) :
    literal input t o = .ofLength t.length := by
  rw [literal, if_pos ((standsAt_iff id input t o).2 (by rw [List.map_id, h]))]

theorem literal_of_not_window {input : Array Char} {t : Text} {o : Nat} (h : phraseText input o t.length ≠ t) :
    literal input t o = .fail := by
  rw [literal, if_neg fun hs => h (by rw [standsAt_iff, List.map_id] at hs; exact hs)]

theorem foldedLiteral_of_window {input : Array Char} {t : Text} {o : Nat}
    (h : foldCase (phraseText input o t.length) = foldCase t) :
    foldedLiteral input (foldCase t) o = .ofLength t.length := by
  have hlen : (foldCase t).length = t.length := List.length_map _
  rw [foldedLiteral, hlen, if_pos ((standsAt_iff Char.toLower input _ o).2 (by rw [hlen]; exact h))]

theorem foldedLiteral_of_not_window {input : Array Char} {t : Text} {o : Nat}
    (h : foldCase (phraseText input o t.length) ≠ foldCase t) : foldedLiteral input (foldCase t) o = .fail := by
  have hlen : (foldCase t).length = t.length := List.length_map _
  rw [foldedLiteral, if_neg fun hs => h (by rw [standsAt_iff, hlen] at hs; exact hs)]

end Engine
end SignIn
