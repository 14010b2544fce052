import Mathlib.Data.List.Basic
import SignIn.Text.Basic
/-!
# Texts cut at characters

A text is cut where one of some characters stands first: `upTo` is what stands before it, `tailFrom` what begins with it,
and `after?` what follows the first of one character, if there is one.  The lemmas cut a text that is given as a
concatenation.
-/
namespace SignIn

/-- **The text up to the first of some characters,** the whole of it if there is none. -/
def upTo (S t : Text) : Text := t.takeWhile fun c => decide (c ∉ S)

/-- The text from the first of some characters on. -/
def tailFrom (S t : Text) : Text := t.dropWhile fun c => decide (c ∉ S)

/-- **The text after the first of a character,** if there is one. -/
def after? (k : Char) (t : Text) : Option Text := (tailFrom [k] t).tail?

variable {S x t : Text} {k : Char}

/-- What stands before the first of some character, and what follows it. -/
theorem eq_of_append_cons {k : Char} {a b s t : Text} (ha : k ∉ a) (hb : k ∉ b) (h : a ++ k :: s = b ++ k :: t) :
    a = b ∧ s = t := by
  rcases List.append_eq_append_iff.1 h with ⟨z, rfl, hz⟩ | ⟨z, rfl, hz⟩
  · cases z with
    | nil => exact ⟨(List.append_nil a).symm, (List.cons.inj hz).2⟩
    | cons c z =>
      obtain ⟨rfl, -⟩ := List.cons.inj hz
      simp at hb
  · cases z with
    | nil => exact ⟨List.append_nil b, (List.cons.inj hz).2.symm⟩
    | cons c z =>
      obtain ⟨rfl, -⟩ := List.cons.inj hz
      simp at ha

/-! ## Texts with a character between them -/

theorem intercalate_cons (k : Char) (g : Text) (gs : List Text) :
    [k].intercalate (g :: gs) = g ++ gs.flatMap (k :: ·) := by
  induction gs generalizing g with
  | nil => simp [List.intercalate]
  | cons g' gs ih =>
    rw [List.intercalate_cons_cons, ih, List.flatMap_cons]
    simp

theorem intercalate_append {gs : List Text} (hne : gs ≠ []) (k : Char) (v : Option Text) :
    [k].intercalate (gs ++ v.toList) = [k].intercalate gs ++ v.toList.flatMap (k :: ·) := by
  obtain ⟨g, gs, rfl⟩ := List.exists_cons_of_ne_nil hne
  rw [List.cons_append, intercalate_cons, intercalate_cons, List.flatMap_append, List.append_assoc]

end SignIn
