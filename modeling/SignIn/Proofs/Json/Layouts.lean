import SignIn.Proofs.Json.Values
/-!
# Items between brackets

Both layouts put the same things between brackets: before an item blanks, and before these a comma unless the item is
the first (`Layout.listing`).  A reader of lists asks before each item whether the list goes on, and the answer is the
next item as it was written; so does a reader of objects.
-/
namespace SignIn.Json

/-- **Items behind an opening bracket or behind another item:** a comma before each but the first, and what the layout
puts before an item. -/
def Layout.listing (l : Layout) (depth : Nat) : Bool → List Text → Text
  | _, [] => []
  | first, x :: xs => (if first then [] else [',']) ++ (l.break depth ++ (x ++ l.listing depth false xs))

theorem intercalate_map_break (l : Layout) (depth : Nat) (x : Text) (xs : List Text) :
    List.intercalate [','] ((x :: xs).map (l.break depth ++ ·)) = l.break depth ++ (x ++ l.listing depth false xs) := by
  induction xs generalizing x with
  | nil => simp [Layout.listing]
  | cons y ys ih =>
    rw [List.map_cons, List.map_cons, List.intercalate_cons_cons, ← List.map_cons, ih y, Layout.listing]
    simp

/-- **Items between brackets are a listing and a closing bracket,** which may stand on a line of its own. -/
theorem enclosed_eq (l : Layout) (o k : Char) (depth : Nat) (items : List Text) :
    ∃ pad, (∀ c ∈ pad, isBlank c = true) ∧
      l.enclosed o k depth items = o :: (l.listing (depth + 1) true items ++ (pad ++ [k])) := by
  cases items with
  | nil => exact ⟨[], by simp, rfl⟩
  | cons x xs =>
    refine ⟨l.break depth, isBlank_of_mem_break, ?_⟩
    rw [Layout.enclosed, intercalate_map_break, Layout.listing]
    simp

/-- A listing has room for its items. -/
theorem length_le_listing (l : Layout) (depth : Nat) (first : Bool) (items : List Text) (hne : ∀ x ∈ items, x ≠ []) :
    items.length ≤ (l.listing depth first items).length := by
  induction items generalizing first with
  | nil => exact Nat.zero_le _
  | cons x xs ih =>
    have hx := List.length_pos_iff.2 (hne x List.mem_cons_self)
    have hxs := ih false fun y hy => hne y (List.mem_cons_of_mem _ hy)
    simp only [Layout.listing, List.length_append, List.length_cons]
    omega

section

variable {l : Layout} {depth : Nat} {first : Bool} {pad : Text}

/-- What the layout puts before an item is passed over. -/
theorem skipBlanks_break {c : Char} (hblank : isBlank c = false) (t : Text) :
    skipBlanks (l.break depth ++ c :: t) = c :: t := by
  rw [skipBlanks_append isBlank_of_mem_break, skipBlanks_cons hblank]

/-! ## Whether a list goes on -/

/-- **A list goes on with the item that was written next.** -/
theorem nextItem_listing {c : Char} (hblank : isBlank c = false) (hc : c ≠ ']') (w : Text) (xs : List Text) (r : Text) :
    nextItem first (l.listing depth first ((c :: w) :: xs) ++ r) =
      .ok (some (c :: (w ++ (l.listing depth false xs ++ r)))) := by
  have hitem := @skipBlanks_break l depth _ hblank (w ++ (l.listing depth false xs ++ r))
  cases first with
  | true =>
    simp only [nextItem, Layout.listing, if_true, List.nil_append, List.cons_append, hitem, if_neg hc, List.append_assoc]
  | false =>
    rw [nextItem, Layout.listing, if_neg Bool.false_ne_true, List.append_assoc, List.singleton_append, skipBlanks_cons rfl]
    simp only [show ¬(',' : Char) = ']' by decide, if_false, Bool.false_eq_true, if_true, List.cons_append, hitem,
      if_neg hc, List.append_assoc]

/-- **A list ends at its closing bracket.** -/
theorem nextItem_end (hpad : ∀ c ∈ pad, isBlank c = true) (r : Text) : nextItem first (pad ++ ']' :: r) = .ok none := by
  rw [nextItem, skipBlanks_append hpad, skipBlanks_cons rfl]
  simp

theorem readListEnd_end (hpad : ∀ c ∈ pad, isBlank c = true) (r : Text) : readListEnd (pad ++ ']' :: r) = .ok r := by
  rw [readListEnd, skipBlanks_append hpad, skipBlanks_cons rfl]
  simp

/-- **The strings of a list are read back,** an item a round. -/
theorem readItems_listing (hpad : ∀ c ∈ pad, isBlank c = true) (r : Text) {ss : List Text} {fuel : Nat}
    (hfuel : ss.length < fuel) :
    readItems fuel first (l.listing depth first (ss.map quoted) ++ (pad ++ ']' :: r)) = .ok (ss, r) := by
  induction ss generalizing first fuel with
  | nil =>
    obtain ⟨fuel, rfl⟩ := Nat.exists_eq_add_one.2 hfuel
    simp only [readItems, List.map_nil, Layout.listing, List.nil_append, nextItem_end hpad, readListEnd_end hpad, bind,
      Except.bind, pure, Except.pure]
  | cons s ss ih =>
    obtain ⟨fuel, rfl⟩ := Nat.exists_eq_add_one.2 (Nat.zero_lt_of_lt hfuel)
    have hfirst : quoted s = '"' :: (s.flatMap escapedChar ++ ['"']) := by
      have h := quoted_append s []
      rwa [List.append_nil] at h
    have hnext := @nextItem_listing l depth first '"' rfl (by decide) (s.flatMap escapedChar ++ ['"']) (ss.map quoted)
      (pad ++ ']' :: r)
    rw [← hfirst, ← List.cons_append, ← hfirst] at hnext
    have hitem : readText (quoted s ++ (l.listing depth false (ss.map quoted) ++ (pad ++ ']' :: r))) =
        .ok (s, l.listing depth false (ss.map quoted) ++ (pad ++ ']' :: r)) := by
      refine readText_quoted ?_
      rw [quoted_append, skipBlanks_cons rfl]
    simp only [readItems, List.map_cons, hnext, hitem, ih (Nat.lt_of_succ_lt_succ hfuel), bind, Except.bind, pure, Except.pure]

/-- **A list of strings is read back.** -/
theorem inverts_readTexts (l : Layout) (depth : Nat) (ss : List Text) :
    Inverts readTexts (l.enclosed '[' ']' depth (ss.map quoted)) ss := by
  intro t r ht _
  obtain ⟨pad, hpad, heq⟩ := enclosed_eq l '[' ']' depth (ss.map quoted)
  have hlength := length_le_listing l (depth + 1) true (ss.map quoted) (by simp [quoted])
  rw [List.length_map] at hlength
  rw [heq, List.cons_append, List.append_assoc, List.append_assoc, List.singleton_append] at ht
  rw [readTexts, ht]
  refine readItems_listing hpad r ?_
  simp only [List.length_append, List.length_cons]
  omega

/-! ## Whether an object goes on -/

/-- **An object goes on with the key that was written next.** -/
theorem nextKey_listing (w : Text) (xs : List Text) (r : Text) :
    nextKey first (l.listing depth first (('"' :: w) :: xs) ++ r) = .ok (some (w ++ (l.listing depth false xs ++ r))) := by
  have hitem := @skipBlanks_break l depth '"' rfl (w ++ (l.listing depth false xs ++ r))
  have hbrace : ¬('"' : Char) = '\x7d' := by decide
  cases first with
  | true =>
    simp only [nextKey, Layout.listing, if_true, List.nil_append, List.cons_append, hitem, if_neg hbrace, List.append_assoc]
  | false =>
    rw [nextKey, Layout.listing, if_neg Bool.false_ne_true, List.append_assoc, List.singleton_append, skipBlanks_cons rfl]
    simp only [show ¬(',' : Char) = '\x7d' by decide, if_false, Bool.false_eq_true, if_true, List.cons_append, hitem,
      if_neg hbrace, List.append_assoc]

/-- **An object ends at its closing bracket.** -/
theorem nextKey_end (hpad : ∀ c ∈ pad, isBlank c = true) (r : Text) : nextKey first (pad ++ '\x7d' :: r) = .ok none := by
  rw [nextKey, skipBlanks_append hpad, skipBlanks_cons rfl]
  simp

end

end SignIn.Json
