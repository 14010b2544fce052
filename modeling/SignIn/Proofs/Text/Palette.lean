import SignIn.Text.Styled
/-!
# Colours deleted again

Listings and traces are shown in four styles, so their colours are five escape sequences: a code for each style, and the
reset.  Where the text of no piece holds an escape character, deleting the sequences from coloured output leaves the
output without colours (`uncolored_render`).
-/
namespace SignIn

/-- **The styles of listings and traces.** -/
def palette : List Style := [.name, .hit, .miss, .faint]

/-- **The escape sequences of the palette.** -/
def paletteCodes : List Text := palette.map Style.code ++ [Style.reset]

/-- **A text with some sequences deleted,** from the left to the right; what is left of a sequence that has been found
is skipped. -/
def deleting (codes : List Text) : Nat → Text → Text
  | _, [] => []
  | skip + 1, _ :: t => deleting codes skip t
  | 0, c :: t =>
    match codes.find? fun code => code.isPrefixOf (c :: t) with
    | some code => deleting codes (code.length - 1) t
    | none => c :: deleting codes 0 t

/-- **A text with the escape sequences of the palette deleted.** -/
def uncolored (t : Text) : Text := deleting paletteCodes 0 t

variable {k : Char} {s u : Styled} {t x : Text} {style : Style} {colored : Bool}

theorem code_mem (h : style ∈ palette) : style.code ∈ paletteCodes :=
  List.mem_append_left _ (List.mem_map_of_mem h)

theorem reset_mem : Style.reset ∈ paletteCodes := List.mem_append_right _ (List.mem_singleton_self _)

theorem forall_paletteCodes {P : Text → Prop} (hname : P Style.name.code) (hhit : P Style.hit.code)
    (hmiss : P Style.miss.code) (hfaint : P Style.faint.code) (hreset : P Style.reset) :
    ∀ code ∈ paletteCodes, P code := by
  simp only [paletteCodes, palette, List.map_cons, List.map_nil, List.cons_append, List.nil_append,
    List.forall_mem_cons]
  exact ⟨hname, hhit, hmiss, hfaint, hreset, by simp⟩

/-- **A sequence is deleted.** -/
theorem uncolored_code : ∀ code ∈ paletteCodes, ∀ t, uncolored (code ++ t) = uncolored t :=
  forall_paletteCodes (fun _ => rfl) (fun _ => rfl) (fun _ => rfl) (fun _ => rfl) fun _ => rfl

/-- **Text without an escape character stays.** -/
theorem uncolored_append : ∀ {x : Text}, '\x1b' ∉ x → ∀ t, uncolored (x ++ t) = x ++ uncolored t
  | [], _, _ => rfl
  | c :: x, hx, t => by
    rw [List.mem_cons, not_or] at hx
    have hescape : ∀ code ∈ paletteCodes, ∃ rest, code = '\x1b' :: rest :=
      forall_paletteCodes ⟨_, rfl⟩ ⟨_, rfl⟩ ⟨_, rfl⟩ ⟨_, rfl⟩ ⟨_, rfl⟩
    -- every sequence begins with an escape character, so none begins here
    have hnone : paletteCodes.find? (fun code => code.isPrefixOf (c :: (x ++ t))) = none := by
      refine List.find?_eq_none.2 fun code hcode hprefix => hx.1 ?_
      obtain ⟨rest, rfl⟩ := hescape code hcode
      exact (List.cons_prefix_cons.1 (List.isPrefixOf_iff_prefix.1 hprefix)).1
    show deleting paletteCodes 0 (c :: (x ++ t)) = _
    rw [deleting, hnone]
    exact congrArg (c :: ·) (uncolored_append hx.2 t)

/-! ## Output that lacks a character -/

namespace Styled

/-- **Output of the palette that lacks a character:** no text of it holds the character, and its styles are those of the
palette. -/
def Lacks (k : Char) (s : Styled) : Prop := ∀ p ∈ s, k ∉ p.text ∧ ∀ style, p.style = some style → style ∈ palette

@[simp] theorem lacks_nil : Lacks k [] := by simp [Lacks]

@[simp] theorem lacks_append : Lacks k (s ++ u) ↔ s.Lacks k ∧ u.Lacks k := List.forall_mem_append

@[simp] theorem lacks_plain : Lacks k (plain t) ↔ k ∉ t := by simp [Lacks, plain]

@[simp] theorem lacks_paint : Lacks k (paint style t) ↔ k ∉ t ∧ style ∈ palette := by simp [Lacks, paint]

theorem lacks_lines {ls : List Styled} (hk : k ≠ '\n') (h : ∀ l ∈ ls, l.Lacks k) : Lacks k (lines ls) := by
  simp only [lines, Lacks, List.forall_mem_flatMap]
  intro l hl
  exact lacks_append.2 ⟨h l hl, lacks_plain.2 fun hmem => hk (List.mem_singleton.1 hmem)⟩

theorem render_cons (colored : Bool) (p : Piece) (s : Styled) :
    Styled.render colored (p :: s) = p.render colored ++ s.render colored := List.flatMap_cons

/-- **What output lacks, its text lacks** with colours and without, if no sequence has it. -/
theorem Lacks.not_mem_render (h : s.Lacks k) (hk : ∀ code ∈ paletteCodes, k ∉ code) (colored : Bool) :
    k ∉ s.render colored := by
  simp only [render, List.mem_flatMap, not_exists, not_and]
  intro p hp
  obtain ⟨htext, hstyle⟩ := h p hp
  unfold Piece.render
  split
  · rename_i style hs
    simp only [List.mem_append, not_or]
    exact ⟨⟨hk _ (code_mem (hstyle style hs)), htext⟩, hk _ reset_mem⟩
  · exact htext

/-- **Without the sequences, coloured output is the output without colours,** if it lacks the escape character. -/
theorem Lacks.uncolored_render : ∀ {s : Styled}, s.Lacks '\x1b' → uncolored (s.render true) = s.render false
  | [], _ => rfl
  | p :: s, h => by
    obtain ⟨⟨htext, hstyle⟩, hrest⟩ := List.forall_mem_cons.1 h
    have ih := Lacks.uncolored_render hrest
    rw [render_cons, render_cons]
    obtain ⟨_ | style, text⟩ := p
    · show uncolored (text ++ _) = text ++ _
      rw [uncolored_append htext, ih]
    · show uncolored (style.code ++ text ++ Style.reset ++ _) = text ++ _
      rw [List.append_assoc, List.append_assoc, uncolored_code _ (code_mem (hstyle style rfl)), uncolored_append htext,
        uncolored_code _ reset_mem, ih]

/-! ## Output in lines -/

theorem render_append (colored : Bool) (s u : Styled) :
    Styled.render colored (s ++ u) = s.render colored ++ u.render colored := List.flatMap_append

theorem render_lines (colored : Bool) : ∀ ls : List Styled,
    (lines ls).render colored = unlines (ls.map (Styled.render colored))
  | [] => rfl
  | l :: ls => by
    rw [lines, List.flatMap_cons, render_append, render_append, ← lines, render_lines colored ls]
    cases colored <;> rfl

/-- **Lines without a line feed are found again** by cutting at line feeds; nothing stands behind the last. -/
theorem splitOn_unlines : ∀ {ts : List Text}, (∀ t ∈ ts, '\n' ∉ t) → (unlines ts).splitOn '\n' = ts ++ [[]]
  | [], _ => rfl
  | t :: ts, h => by
    rw [List.forall_mem_cons] at h
    rw [unlines, List.flatMap_cons, List.append_assoc, List.singleton_append,
      List.splitOn_append_cons_self_of_not_mem h.1, ← unlines, splitOn_unlines h.2, List.cons_append]

end Styled
end SignIn
