import SignIn.Match.Tally
import SignIn.Match.Trace
import SignIn.Proofs.Match.Attempts
import SignIn.Proofs.Text.Controls
import SignIn.Proofs.Text.Palette
/-!
# What is shown of a grammar and of its matches

Beside the names of rules and terminals, listings, traces and tallies show nothing in which a control character could
stand: literals are escaped, and so is the input; what remains are numbers and fixed text.  So if no name holds a
certain control, no piece of the output does (`Trace.LinesLack.foldl`, `Tally.lacks_listing`, `Grammar.lacks_listing`).
Of the escape character this means that colours can be deleted again (`colors_decorate`).
-/
namespace SignIn

open Styled

/-- **A grammar whose names lack a character.** -/
structure Grammar.NamesLack (k : Char) (g : Grammar) : Prop where
  rules : ∀ r ∈ g.rules, k ∉ r.name
  udts : ∀ u ∈ g.udts, k ∉ u.name

theorem forall_mem_intercalate {α : Type} {P : α → Prop} {sep : List α} (hsep : ∀ a ∈ sep, P a) :
    ∀ {xs : List (List α)}, (∀ x ∈ xs, ∀ a ∈ x, P a) → ∀ a ∈ List.intercalate sep xs, P a
  | [], _ => by simp
  | [x], h => by simpa using h
  | x :: y :: xs, h => by
    rw [List.forall_mem_cons] at h
    rw [List.intercalate_cons_cons, List.forall_mem_append, List.forall_mem_append]
    exact ⟨⟨h.1, hsep⟩, forall_mem_intercalate hsep h.2⟩

section Shown

variable {k : Char} {g : Grammar} {width : Nat} {limit : Nat}

/-! ## Listings of a grammar -/

namespace Grammar

theorem NamesLack.ruleName (h : g.NamesLack k) (id : RuleId) : k ∉ g.ruleName id := by
  unfold Grammar.ruleName
  cases hr : g.rules[id.index]? with
  | none => exact List.not_mem_nil
  | some r => exact h.rules r (Array.mem_of_getElem? hr)

theorem NamesLack.udtName (h : g.NamesLack k) (id : UdtId) : k ∉ g.udtName id := by
  unfold Grammar.udtName
  cases hu : g.udts[id.index]? with
  | none => exact List.not_mem_nil
  | some u => exact h.udts u (Array.mem_of_getElem? hu)

theorem not_mem_operandIndex (hk : isControl k = true) (i : Nat) : k ∉ operandIndex width i :=
  not_mem_alignRight hk rfl (not_mem_decimal hk)

theorem not_mem_boundText (hk : isControl k = true) : ∀ max, k ∉ boundText max
  | some _ => not_mem_decimal hk
  | none => not_mem_of_printable hk rfl

theorem not_mem_mnemonic (hk : isControl k = true) (o : Operator) : k ∉ o.mnemonic :=
  not_mem_of_printable hk (by cases o <;> rfl)

theorem not_mem_operandIndices (hk : isControl k = true) (children : List Nat) :
    k ∉ List.intercalate [' '] (children.map (operandIndex width)) := by
  have hsep : ∀ c ∈ [' '], k ≠ c := List.forall_mem_singleton.2 (ne_of_printable hk rfl)
  have hindices : ∀ t ∈ children.map (operandIndex width), ∀ c ∈ t, k ≠ c := by
    intro t ht c hc heq
    obtain ⟨i, -, rfl⟩ := List.mem_map.1 ht
    exact not_mem_operandIndex hk i (heq ▸ hc)
  exact fun hmem => forall_mem_intercalate hsep hindices k hmem rfl

theorem lacks_operands (hk : isControl k = true) (h : g.NamesLack k) (op : Opcode) : (g.operands width op).Lacks k := by
  have hfixed {t : Text} := not_mem_of_printable (t := t) hk
  cases op with
  | alt children | cat children =>
    simp only [operands, lacks_append, lacks_plain, lacks_paint]
    exact ⟨hfixed rfl, not_mem_operandIndices hk children, by decide⟩
  | rep min max child =>
    simp only [operands, operandArrow, lacks_append, lacks_plain, lacks_paint, List.mem_append, not_or]
    exact ⟨⟨⟨⟨⟨hfixed rfl, not_mem_decimal hk⟩, hfixed rfl⟩, not_mem_boundText hk max⟩, hfixed rfl⟩,
      ⟨hfixed rfl, not_mem_operandIndex hk child⟩, by decide⟩
  | rnm id => exact lacks_append.2 ⟨lacks_plain.2 (hfixed rfl), lacks_paint.2 ⟨h.ruleName id, by decide⟩⟩
  | udt id => exact lacks_append.2 ⟨lacks_plain.2 (hfixed rfl), lacks_paint.2 ⟨h.udtName id, by decide⟩⟩
  | trg min max =>
    simp only [operands, lacks_append, lacks_plain]
    refine ⟨not_mem_append (hfixed rfl) (not_mem_decimal hk), ?_⟩
    split
    · exact lacks_nil
    · exact lacks_plain.2 (not_mem_append (hfixed rfl) (not_mem_decimal hk))
  | tbs literal | tls literal =>
    simp only [operands, lacks_append, lacks_plain, lacks_paint]
    exact ⟨hfixed rfl, not_mem_append (not_mem_append (hfixed rfl) (not_mem_escaped hk)) (hfixed rfl), by decide⟩
  | and child | not child =>
    simp only [operands, operandArrow, lacks_append, lacks_plain, lacks_paint]
    exact ⟨hfixed rfl, not_mem_append (hfixed rfl) (not_mem_operandIndex hk child), by decide⟩

theorem lacks_opcodeLine (hk : isControl k = true) (h : g.NamesLack k) (i : Nat) (op : Opcode) :
    (g.opcodeLine width i op).Lacks k := by
  simp only [opcodeLine, lacks_append, lacks_plain, lacks_paint]
  exact ⟨⟨⟨not_mem_of_printable hk rfl, not_mem_alignRight hk rfl (not_mem_decimal hk), by decide⟩,
    not_mem_append (not_mem_of_printable hk rfl) (not_mem_mnemonic hk _)⟩, lacks_operands hk h op⟩

/-- **The block of a rule** lacks a control that no name holds, other than the line feed. -/
theorem lacks_ruleListing (hk : isControl k = true) (hline : k ≠ '\n') (h : g.NamesLack k) {r : Rule}
    (hr : r ∈ g.rules) : (g.ruleListing r).Lacks k := by
  refine lacks_lines hline (List.forall_mem_cons.2 ⟨?_, ?_⟩)
  · exact lacks_append.2 ⟨lacks_paint.2 ⟨h.rules r hr, by decide⟩, lacks_plain.2 (not_mem_of_printable hk rfl)⟩
  · intro line hline
    obtain ⟨p, -, rfl⟩ := List.mem_map.1 hline
    exact lacks_opcodeLine hk h p.2 p.1

theorem lacks_udtListing (hk : isControl k = true) (h : g.NamesLack k) {u : Udt} (hu : u ∈ g.udts) :
    u.listing.Lacks k := by
  have hfixed {t : Text} := not_mem_of_printable (t := t) hk
  simp only [Udt.listing, lacks_append, lacks_plain, lacks_paint]
  refine ⟨⟨⟨⟨hfixed rfl, by decide⟩, hfixed rfl⟩, h.udts u hu, by decide⟩, ?_⟩
  split
  · exact hfixed rfl
  · exact List.not_mem_nil

theorem lacks_listing (hk : isControl k = true) (hline : k ≠ '\n') (h : g.NamesLack k) : g.listing.Lacks k := by
  have hfeed : Lacks k (plain "\n") := lacks_plain.2 fun hmem => hline (List.mem_singleton.1 hmem)
  refine lacks_append.2 ⟨forall_mem_intercalate hfeed fun block hblock => ?_, ?_⟩
  · obtain ⟨r, hr, rfl⟩ := List.mem_map.1 hblock
    exact lacks_ruleListing hk hline h (Array.mem_toList_iff.1 hr)
  split
  · exact lacks_nil
  · refine lacks_append.2 ⟨hfeed, lacks_lines hline fun line hmem => ?_⟩
    obtain ⟨u, hu, rfl⟩ := List.mem_map.1 hmem
    exact lacks_udtListing hk h (Array.mem_toList_iff.1 hu)

end Grammar

/-! ## Lines of a trace -/

namespace Trace

theorem not_mem_indentation (hk : isControl k = true) (depth : Nat) : k ∉ indentation depth := by
  simp only [indentation, List.mem_map, not_exists, not_and]
  intro i _
  split
  · exact (ne_of_printable hk rfl).symm
  · exact (ne_of_printable hk rfl).symm

theorem not_mem_literalLabel (hk : isControl k = true) (literal : Text) : k ∉ literalLabel literal := by
  unfold literalLabel
  split
  · exact not_mem_append (not_mem_escaped hk) (not_mem_of_printable hk rfl)
  · exact not_mem_escaped hk

theorem lacks_label (hk : isControl k = true) (h : g.NamesLack k) (op : Opcode) : (label g op).Lacks k := by
  have hfixed {t : Text} := not_mem_of_printable (t := t) hk
  cases op with
  | rep min max child =>
    simp only [label, lacks_plain, List.mem_append, not_or]
    exact ⟨⟨⟨⟨hfixed rfl, not_mem_decimal hk⟩, hfixed rfl⟩, Grammar.not_mem_boundText hk max⟩, hfixed rfl⟩
  | rnm id =>
    simp only [label, lacks_append, lacks_plain, lacks_paint]
    exact ⟨⟨hfixed rfl, h.ruleName id, by decide⟩, hfixed rfl⟩
  | udt id =>
    simp only [label, lacks_append, lacks_plain, lacks_paint]
    exact ⟨⟨hfixed rfl, h.udtName id, by decide⟩, hfixed rfl⟩
  | trg min max =>
    simp only [label, lacks_plain, List.mem_append, not_or]
    exact ⟨⟨⟨⟨hfixed rfl, not_mem_decimal hk⟩, hfixed rfl⟩, not_mem_decimal hk⟩, hfixed rfl⟩
  | tbs literal | tls literal =>
    simp only [label, lacks_plain, List.mem_append, not_or]
    exact ⟨⟨hfixed rfl, not_mem_literalLabel hk literal⟩, hfixed rfl⟩
  | alt children | cat children | and child | not child => exact lacks_plain.2 (Grammar.not_mem_mnemonic hk _)

theorem lacks_downLine (hk : isControl k = true) (h : g.NamesLack k) (t : Trace) (op : Opcode) (o : Nat) :
    (downLine g limit t op o).Lacks k := by
  have hfixed {t : Text} := not_mem_of_printable (t := t) hk
  simp only [downLine, preview, lacks_append, lacks_plain, lacks_paint]
  refine ⟨⟨⟨⟨⟨not_mem_indentation hk _, by decide⟩, hfixed rfl⟩, lacks_label hk h op⟩, hfixed rfl⟩, ?_, by decide⟩
  refine not_mem_append (not_mem_controlsEscaped hk) ?_
  split
  · exact List.not_mem_nil
  · exact hfixed rfl

theorem lacks_upLine (hk : isControl k = true) (h : g.NamesLack k) (input : Array Char) (depth : Nat) (op : Opcode)
    (p : Phrase) (o : Nat) : (upLine g input depth op p o).Lacks k := by
  have hfixed {t : Text} := not_mem_of_printable (t := t) hk
  have hmarker : (marker p.state).Lacks k := by
    cases p.state <;> exact lacks_paint.2 ⟨hfixed rfl, by decide⟩
  have houtcome : (outcomeText input p o).Lacks k := by
    unfold outcomeText
    split
    · simp only [lacks_append, lacks_plain, lacks_paint]
      exact ⟨⟨hfixed rfl, not_mem_controlsEscaped hk, by decide⟩, hfixed rfl⟩
    · exact lacks_plain.2 (hfixed rfl)
    · exact lacks_nil
    · exact lacks_nil
  simp only [upLine, lacks_append, lacks_plain, lacks_paint]
  exact ⟨⟨⟨⟨⟨⟨not_mem_indentation hk depth, by decide⟩, hmarker⟩, hfixed rfl⟩, lacks_label hk h op⟩, hfixed rfl⟩,
    houtcome⟩

theorem lines_watch_down (g : Grammar) (limit : Nat) (t : Trace) (op : Opcode) (o : Nat) :
    (watch g limit t (.down op o)).lines = t.lines ++ [downLine g limit t op o] := List.reverse_cons

theorem lines_watch_up (g : Grammar) (limit : Nat) (t : Trace) (op : Opcode) (p : Phrase) (o : Nat) :
    (watch g limit t (.up op p o)).lines = t.lines ++ [upLine g t.input (t.depth - 1) op p o] := List.reverse_cons

/-- **A trace whose lines lack a character.** -/
def LinesLack (k : Char) (t : Trace) : Prop := ∀ line ∈ t.lines, line.Lacks k

theorem linesLack_start (input : Array Char) (t : Trace) : (watch g limit t (.start input)).LinesLack k :=
  fun _ hmem => absurd hmem List.not_mem_nil

theorem LinesLack.watch (hk : isControl k = true) (h : g.NamesLack k) {t : Trace} (ht : t.LinesLack k) (e : Event) :
    (watch g limit t e).LinesLack k := by
  cases e with
  | start input => exact linesLack_start input t
  | down op o =>
    unfold LinesLack
    rw [lines_watch_down, List.forall_mem_append, List.forall_mem_singleton]
    exact ⟨ht, lacks_downLine hk h t op o⟩
  | up op p o =>
    unfold LinesLack
    rw [lines_watch_up, List.forall_mem_append, List.forall_mem_singleton]
    exact ⟨ht, lacks_upLine hk h t.input _ op p o⟩

theorem LinesLack.foldl (hk : isControl k = true) (h : g.NamesLack k) {t : Trace} (ht : t.LinesLack k)
    (es : List Event) : (es.foldl (Trace.watch g limit) t).LinesLack k :=
  List.foldlRecOn es _ ht fun _ ht e _ => ht.watch hk h e

theorem LinesLack.listing (hline : k ≠ '\n') {t : Trace} (ht : t.LinesLack k) : t.listing.Lacks k :=
  lacks_lines hline ht

end Trace

/-! ## Tables of a tally -/

namespace Tally

theorem not_mem_columns (hk : isControl k = true) {cells : List Text} (h : ∀ c ∈ cells, k ∉ c) : k ∉ columns cells := by
  simp only [columns, List.mem_flatMap, List.mem_cons, not_exists, not_and, not_or]
  exact fun c hc => ⟨ne_of_printable hk rfl, not_mem_alignRight hk rfl (h c hc)⟩

theorem not_mem_countColumns (hk : isControl k = true) (c : Counts) : k ∉ countColumns c := by
  refine not_mem_columns hk fun cell hcell => ?_
  obtain ⟨n, -, rfl⟩ := List.mem_map.1 hcell
  exact not_mem_decimal hk

theorem lacks_heading (hk : isControl k = true) {width : Nat} {title : Text} (htitle : k ∉ title) :
    (heading width title).Lacks k := by
  refine lacks_paint.2 ⟨not_mem_append (not_mem_alignLeft hk htitle) (not_mem_columns hk ?_), by decide⟩
  simp only [List.forall_mem_cons]
  exact ⟨not_mem_of_printable hk rfl, not_mem_of_printable hk rfl, not_mem_of_printable hk rfl,
    not_mem_of_printable hk rfl, by simp⟩

theorem lacks_operatorRow (hk : isControl k = true) {title : Text} (htitle : k ∉ title) (c : Counts) :
    (operatorRow title c).Lacks k :=
  lacks_plain.2 (not_mem_append (not_mem_alignLeft hk htitle) (not_mem_countColumns hk c))

theorem lacks_nameRow (hk : isControl k = true) {row : Text × Counts} (hname : k ∉ row.1) : (nameRow row).Lacks k :=
  lacks_append.2 ⟨lacks_paint.2 ⟨not_mem_alignLeft hk hname, by decide⟩, lacks_plain.2 (not_mem_countColumns hk row.2)⟩

/-- A row is that of a rule or of a terminal. -/
theorem not_mem_of_mem_rows (h : g.NamesLack k) {t : Tally} {row : Text × Counts} (hrow : row ∈ rows g t) :
    k ∉ row.1 := by
  simp only [rows, List.mem_mergeSort, List.mem_filter, List.mem_append] at hrow
  rcases hrow.1 with hrule | hudt
  · obtain ⟨r, hr, hname⟩ := List.mem_map.1 (List.of_mem_zip hrule).1
    exact hname ▸ h.rules r (Array.mem_toList_iff.1 hr)
  · obtain ⟨u, hu, hname⟩ := List.mem_map.1 (List.of_mem_zip hudt).1
    exact hname ▸ h.udts u (Array.mem_toList_iff.1 hu)

theorem lacks_listing (hk : isControl k = true) (hline : k ≠ '\n') (h : g.NamesLack k) (t : Tally) :
    (listing g t).Lacks k := by
  have hfixed {t : Text} := not_mem_of_printable (t := t) hk
  refine lacks_append.2 ⟨lacks_lines hline ?_, ?_⟩
  · rw [operatorTable, List.cons_append, List.forall_mem_cons, List.forall_mem_append, List.forall_mem_singleton]
    refine ⟨lacks_heading hk (hfixed rfl), fun row hrow => ?_, lacks_operatorRow hk (hfixed rfl) _⟩
    obtain ⟨o, -, rfl⟩ := List.mem_map.1 hrow
    exact lacks_operatorRow hk (Grammar.not_mem_mnemonic hk o) _
  split
  · exact lacks_nil
  refine lacks_append.2 ⟨lacks_plain.2 fun hmem => hline (List.mem_singleton.1 hmem), lacks_lines hline ?_⟩
  refine List.forall_mem_cons.2 ⟨lacks_heading hk (hfixed rfl), fun line hmem => ?_⟩
  obtain ⟨row, hrow, rfl⟩ := List.mem_map.1 hmem
  exact lacks_nameRow hk (not_mem_of_mem_rows h hrow)

end Tally
end Shown

/-- **Colours are decoration.**  If no name of a grammar holds the escape character, deleting the palette's sequences
from coloured output gives the output without colours, whatever the input, the literals and the answers of callbacks
are: of the trace of the last of some attempts, however each of them came out, of any tally, and of the listings of the
grammar and of its rules. -/
theorem colors_decorate {D : Type} {rules : List (Text × List Opcode)} {udts : List (Text × Bool)} {m : Matcher D}
    (htables : Grammar.ofTables rules udts = .ok m.grammar) (hnames : m.grammar.NamesLack '\x1b') :
    (∀ (limit : Nat) (history : List (Attempt D)),
      let trace := m.attemptAll (Trace.watch m.grammar limit) history Trace.empty
      uncolored (trace.listing.render true) = trace.listing.render false) ∧
    (∀ tally : Tally,
      uncolored ((tally.listing m.grammar).render true) = (tally.listing m.grammar).render false) ∧
    uncolored (m.grammar.listing.render true) = m.grammar.listing.render false ∧
    ∀ r ∈ m.grammar.rules,
      uncolored ((m.grammar.ruleListing r).render true) = (m.grammar.ruleListing r).render false := by
  have hesc : isControl '\x1b' = true := rfl
  have hline : '\x1b' ≠ '\n' := by decide
  refine ⟨fun limit history => ?_, fun tally => ?_, ?_, fun r hr => ?_⟩
  · refine Lacks.uncolored_render (Trace.LinesLack.listing hline ?_)
    exact Matcher.attemptAll_keeps (Grammar.wellFormed_ofTables htables) (fun _ h => h.watch hesc hnames _)
      (fun _ h => h.watch hesc hnames _) history (fun _ hmem => absurd hmem List.not_mem_nil)
  · exact (Tally.lacks_listing hesc hline hnames tally).uncolored_render
  · exact (Grammar.lacks_listing hesc hline hnames).uncolored_render
  · exact (Grammar.lacks_ruleListing hesc hline hnames hr).uncolored_render

/-- Tables of a rule that reads an escape sequence and then a letter. -/
def markTables : List (Text × List Opcode) × List (Text × Bool) :=
  ([("mark", [.cat [1, 2], .tbs "\x1b[31m", .udt ⟨0⟩])], [("letter", false)])

/-- The matcher of that rule; its letters are longer than any input. -/
def markMatcher : Matcher Unit where
  grammar := ⟨#[⟨"mark", #[.cat [1, 2], .tbs "\x1b[31m", .udt ⟨0⟩]⟩], #[⟨"letter", false⟩]⟩
  onRule := #[none]
  onUdt := #[some fun _ input _ d => (⟨.matched, input.size + 1⟩, d)]

theorem colors_decorate_mark :
    Grammar.ofTables markTables.1 markTables.2 = .ok markMatcher.grammar ∧ markMatcher.grammar.NamesLack '\x1b' ∧
    let watch := (Trace.watch markMatcher.grammar 100)
    let a : Attempt Unit := ⟨"mark", #['\x1b', '[', '3', '1', 'm', 'x'], (), 9⟩
    let trace := markMatcher.attemptAll watch [a] Trace.empty
    (markMatcher.attempt watch a Trace.empty).result = .error (.phraseOverrun "letter" 7 1) ∧ trace.lines.length = 5 ∧
    uncolored (trace.listing.render true) = trace.listing.render false ∧
    uncolored (markMatcher.grammar.listing.render true) = markMatcher.grammar.listing.render false :=
  have hg : Grammar.ofTables markTables.1 markTables.2 = .ok markMatcher.grammar := rfl
  have hnames : markMatcher.grammar.NamesLack '\x1b' := by
    constructor <;> simp [markMatcher]
  have h := colors_decorate hg hnames
  ⟨hg, hnames, rfl, rfl, h.1 100 _, h.2.2.1⟩

end SignIn
