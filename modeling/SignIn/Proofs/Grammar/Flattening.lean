import SignIn.Proofs.Expr.Layout
import SignIn.Proofs.Grammar.Preorder
/-!
# Grammars from expressions

Rules make a grammar exactly if their names are distinct and every expression in them is sound by itself (`Expr.Sound`);
what else can be wrong with opcodes, no flattening produces.  The opcodes of a rule are in pre-order, and the tree that is
read from them along the operands' indices (`readTree`) is the rule's expression, with ids for names.

All of it is read off `Names.Emitted`: an operator, and its operands behind it in a row.
-/
namespace SignIn

/-! ## What a grammar asks of its rules -/

/-- **What is asked of an expression,** what it is applied to aside. -/
def Expr.Sound (rules udts : List Text) : Expr → Prop
  | .rnm name => ∃ n ∈ rules ++ udts, foldCase n = foldCase name
  | .udt name => ∃ n ∈ udts, foldCase n = foldCase name
  | .tbs literal => literal ≠ []
  | .trg min max => min ≤ max
  | .rep min (some max) _ => min ≤ max
  | _ => True

/-- Faults of the opcodes themselves, which no expression has. -/
def GrammarError.Structural : GrammarError → Prop
  | .emptyRule _ | .badChild _ _ _ | .ruleOutOfRange _ _ _ | .udtOutOfRange _ _ _ => True
  | _ => False

/-! ## What a rule is read back as -/

/-- **An expression whose names are resolved.** -/
inductive Resolved where
  | alt (items : List Resolved)
  | cat (items : List Resolved)
  | rep (min : Nat) (max : Option Nat) (item : Resolved)
  | rule (id : RuleId)
  | udt (id : UdtId)
  | trg (min max : Nat)
  | tbs (literal : Text)
  | tls (literal : Text)
  | and (item : Resolved)
  | not (item : Resolved)

/-- **An expression with the ids of the declarations** for names, and in lower case what is matched in any. -/
inductive Expr.Becomes (rules udts : List Text) : Expr → Resolved → Prop where
  | alt {items trees} (each : List.Forall₂ (Expr.Becomes rules udts) items trees) : Expr.Becomes rules udts (.alt items) (.alt trees)
  | cat {items trees} (each : List.Forall₂ (Expr.Becomes rules udts) items trees) : Expr.Becomes rules udts (.cat items) (.cat trees)
  | rep {min max item tree} (below : Expr.Becomes rules udts item tree) :
    Expr.Becomes rules udts (.rep min max item) (.rep min max tree)
  | rule {name n i} (declared : rules[i]? = some n) (same : foldCase n = foldCase name) :
    Expr.Becomes rules udts (.rnm name) (.rule ⟨i⟩)
  | terminal {name n i} (declared : udts[i]? = some n) (same : foldCase n = foldCase name) :
    Expr.Becomes rules udts (.rnm name) (.udt ⟨i⟩)
  | udt {name n i} (declared : udts[i]? = some n) (same : foldCase n = foldCase name) :
    Expr.Becomes rules udts (.udt name) (.udt ⟨i⟩)
  | trg {min max} : Expr.Becomes rules udts (.trg min max) (.trg min max)
  | tbs {literal} : Expr.Becomes rules udts (.tbs literal) (.tbs literal)
  | tls {literal} : Expr.Becomes rules udts (.tls literal) (.tls (foldCase literal))
  | and {item tree} (below : Expr.Becomes rules udts item tree) : Expr.Becomes rules udts (.and item) (.and tree)
  | not {item tree} (below : Expr.Becomes rules udts item tree) : Expr.Becomes rules udts (.not item) (.not tree)

def Opcode.applied : Opcode → List Resolved → Option Resolved
  | .alt _, trees => some (.alt trees)
  | .cat _, trees => some (.cat trees)
  | .rep min max _, [tree] => some (.rep min max tree)
  | .rnm id, [] => some (.rule id)
  | .udt id, [] => some (.udt id)
  | .trg min max, [] => some (.trg min max)
  | .tbs literal, [] => some (.tbs literal)
  | .tls literal, [] => some (.tls literal)
  | .and _, [tree] => some (.and tree)
  | .not _, [tree] => some (.not tree)
  | _, _ => none

/-- **The tree at an index,** if it is no deeper than that. -/
def readTree (ops : Array Opcode) : Nat → Nat → Option Resolved
  | 0, _ => none
  | depth + 1, i => do
    let op ← ops[i]?
    let trees ← op.children.mapM (readTree ops depth)
    op.applied trees

/-- **The tree of a rule,** which has no more levels than opcodes. -/
def Rule.tree? (rule : Rule) : Option Resolved := readTree rule.opcodes rule.opcodes.size 0

/-! ## Expressions and the faults of opcodes -/

theorem forall_mem_of_forall₂ {α β : Type} {R : α → β → Prop} {P : α → Prop} {Q : β → Prop}
    (hR : ∀ x y, R x y → (P x ↔ Q y)) :
    ∀ {xs : List α} {ys : List β}, List.Forall₂ R xs ys → ((∀ x ∈ xs, P x) ↔ ∀ y ∈ ys, Q y)
  | _, _, .nil => by simp
  | _, _, .cons h hs => by rw [List.forall_mem_cons, List.forall_mem_cons, hR _ _ h, forall_mem_of_forall₂ hR hs]

theorem exists_mem_of_forall₂ {α β : Type} {R : α → β → Prop} {y : β} :
    ∀ {xs : List α} {ys : List β}, List.Forall₂ R xs ys → y ∈ ys → ∃ x ∈ xs, R x y
  | _, _, .cons h hs, hy => by
    rcases List.mem_cons.1 hy with rfl | hy
    · exact ⟨_, List.mem_cons_self, h⟩
    · obtain ⟨x, hx, hr⟩ := exists_mem_of_forall₂ hs hy
      exact ⟨x, List.mem_cons_of_mem _ hx, hr⟩

section

variable {names : Names} {e : Expr} {op : Opcode} {rule : Text} {i : Nat}

theorem Names.exists_heads (hd : ((names.rules ++ names.udts).map foldCase).Nodup) (h : e.Sound names.rules names.udts) :
    ∃ op, names.Heads e op := by
  cases e with
  | alt items => exact ⟨.alt [], .alt⟩
  | cat items => exact ⟨.cat [], .cat⟩
  | rep min max item => exact ⟨.rep min max 0, .rep⟩
  | rnm name =>
    obtain ⟨n, hn, hfold⟩ := h
    rcases List.mem_append.1 hn with hn | hn
    · obtain ⟨k, hk⟩ := List.getElem?_of_mem hn
      exact ⟨_, .rnm (resolveName_rule hd hk (sameName_iff.2 hfold.symm))⟩
    · obtain ⟨k, hk⟩ := List.getElem?_of_mem hn
      exact ⟨_, .rnmUdt (resolveName_udt hd hk (sameName_iff.2 hfold.symm))⟩
  | udt name =>
    obtain ⟨n, hn, hfold⟩ := h
    obtain ⟨k, hk⟩ := List.getElem?_of_mem hn
    exact ⟨_, .udt (resolveName_udt hd hk (sameName_iff.2 hfold.symm))⟩
  | trg min max => exact ⟨_, .trg⟩
  | tbs text => exact ⟨_, .tbs⟩
  | tls text => exact ⟨_, .tls⟩
  | and item => exact ⟨.and 0, .and⟩
  | not item => exact ⟨.not 0, .not⟩

/-- **An opcode has no bad operand exactly if its expression is sound;** its names are declared, or it had no opcode. -/
theorem Names.Heads.sound_iff (h : names.Heads e op) : e.Sound names.rules names.udts ↔
    op.badOperand? rule names.rules.length names.udts.length i = none := by
  cases h with
  | rnm found =>
    obtain ⟨n, hn, hs⟩ := resolveName_eq_rule found
    refine iff_of_true ⟨n, List.mem_append_left _ (List.mem_of_getElem? hn), (sameName_iff.1 hs).symm⟩ ?_
    exact if_neg (Nat.not_le.2 (resolveName_rule_lt found))
  | rnmUdt found =>
    obtain ⟨n, hn, hs⟩ := resolveName_eq_udt found
    refine iff_of_true ⟨n, List.mem_append_right _ (List.mem_of_getElem? hn), (sameName_iff.1 hs).symm⟩ ?_
    exact if_neg (Nat.not_le.2 (resolveName_udt_lt found))
  | udt found =>
    obtain ⟨n, hn, hs⟩ := resolveName_eq_udt found
    refine iff_of_true ⟨n, List.mem_of_getElem? hn, (sameName_iff.1 hs).symm⟩ ?_
    exact if_neg (Nat.not_le.2 (resolveName_udt_lt found))
  | @rep min max _ _ => cases max <;> simp [Expr.Sound, Opcode.badOperand?]
  | _ => simp [Expr.Sound, Opcode.badOperand?]

/-- What is wrong with an opcode was wrong with its expression. -/
theorem Names.Heads.not_structural (h : names.Heads e op) {err : GrammarError}
    (herr : op.badOperand? rule names.rules.length names.udts.length i = some err) : ¬ err.Structural := by
  cases h with
  | rnm found => exact absurd (resolveName_rule_lt found) (Nat.not_lt.2 (Option.ite_none_right_eq_some.1 herr).1)
  | rnmUdt found => exact absurd (resolveName_udt_lt found) (Nat.not_lt.2 (Option.ite_none_right_eq_some.1 herr).1)
  | udt found => exact absurd (resolveName_udt_lt found) (Nat.not_lt.2 (Option.ite_none_right_eq_some.1 herr).1)
  | @rep min max _ _ =>
    cases max with
    | none => cases herr
    | some max =>
      cases (Option.ite_none_right_eq_some.1 herr).2
      exact not_false
  | trg =>
    cases (Option.ite_none_right_eq_some.1 herr).2
    exact not_false
  | tbs =>
    cases (Option.ite_none_right_eq_some.1 herr).2
    exact not_false
  | _ => cases herr

end

mutual

/-- **The opcodes of an expression are one subtree.** -/
theorem Names.Emitted.spans {names : Names} {ops : Array Opcode} : ∀ {e : Expr} {i : Nat} {part : List Opcode},
    names.Emitted e i part → HoldsFrom ops i part → Spans ops i (i + part.length)
  | _, i, _, @Names.Emitted.node _ _ op _ rest _ row, hold => by
    have hrow := row.spans hold.tail
    rw [← op.children_lowered, Nat.add_assoc, Nat.add_comm 1] at hrow
    exact .node hold.head hrow

theorem Names.EmittedAll.spans {names : Names} {ops : Array Opcode} : ∀ {es : List Expr} {i : Nat} {cs : List Nat}
    {part : List Opcode}, names.EmittedAll es i cs part → HoldsFrom ops i part → Row ops i cs (i + part.length)
  | _, _, _, _, .nil, _ => .nil
  | _, i, _, _, .cons first others, hold => by
    have hrest := others.spans hold.right
    rw [Nat.add_assoc, ← List.length_append] at hrest
    exact .cons (first.spans hold.left) hrest

end

section

variable {names : Names} {e : Expr} {name : Text} {part : List Opcode}

theorem Names.Emitted.isPreorder (h : names.Emitted e 0 part) : IsPreorder (Rule.ofTable (name, part)).opcodes := by
  have hspans := h.spans (HoldsFrom.ofTable (name, part))
  have hsize : (Rule.ofTable (name, part)).opcodes.size = 0 + part.length := by simp [Rule.ofTable]
  rw [← hsize] at hspans
  exact hspans.isPreorder

/-- **No child is out of place.** -/
theorem Names.Emitted.fault?_eq (h : names.Emitted e 0 part) {p : Opcode × Nat} (hp : p ∈ part.zipIdx)
    (ruleCount udtCount : Nat) :
    p.1.fault? name ruleCount udtCount part.length p.2 = p.1.badOperand? name ruleCount udtCount p.2 := by
  have hpre : IsPreorder (Rule.ofTable (name, part)).opcodes := h.isPreorder
  have hsize : (Rule.ofTable (name, part)).opcodes.size = part.length := by simp [Rule.ofTable]
  have hbad : p.1.badChild? p.2 part.length = none := by
    rw [Opcode.badChild?, List.find?_eq_none]
    intro c hc
    have hchild : IsChild (Rule.ofTable (name, part)).opcodes p.2 c := by
      refine ⟨p.1.lowered, ?_, by rwa [Opcode.children_lowered]⟩
      simpa using HoldsFrom.ofTable (name, part) p.2 p.1 (List.mem_zipIdx_iff_getElem?.1 hp)
    have := hpre.forward p.2 c hchild
    simp
    omega
  rw [Opcode.fault?, hbad]

theorem Names.Emitted.heads_zipIdx (h : names.Emitted e 0 part) :
    List.Forall₂ (fun x p => names.Heads x p.1) e.parts part.zipIdx := by
  have hheads := h.heads
  rw [← List.zipIdx_map_fst 0 part] at hheads
  exact List.forall₂_map_right_iff.1 hheads

theorem Names.Emitted.ruleFault?_eq (h : names.Emitted e 0 part) (ruleCount udtCount : Nat) :
    ruleFault? ruleCount udtCount (name, part) =
      part.zipIdx.findSome? fun p => p.1.fault? name ruleCount udtCount part.length p.2 := by
  cases h
  rfl

/-- **A rule has no fault exactly if everything in its expression is sound.** -/
theorem Names.Emitted.ruleFault?_eq_none (h : names.Emitted e 0 part) :
    ruleFault? names.rules.length names.udts.length (name, part) = none ↔
      ∀ x ∈ e.parts, x.Sound names.rules names.udts := by
  have hsound (x : Expr) (p : Opcode × Nat) (hx : names.Heads x p.1) : x.Sound names.rules names.udts ↔
      p.1.badOperand? name names.rules.length names.udts.length p.2 = none := hx.sound_iff
  rw [h.ruleFault?_eq, List.findSome?_eq_none_iff, forall_mem_of_forall₂ hsound h.heads_zipIdx]
  exact forall₂_congr fun p hp => by rw [h.fault?_eq hp]

theorem Names.Emitted.not_structural (h : names.Emitted e 0 part) {err : GrammarError}
    (herr : ruleFault? names.rules.length names.udts.length (name, part) = some err) : ¬ err.Structural := by
  rw [h.ruleFault?_eq] at herr
  obtain ⟨p, hp, herr⟩ := List.exists_of_findSome?_eq_some herr
  rw [h.fault?_eq hp] at herr
  obtain ⟨x, -, hx⟩ := exists_mem_of_forall₂ h.heads_zipIdx hp
  exact hx.not_structural herr

end

/-! ## Reading back -/

theorem Names.Heads.applied {names : Names} {e : Expr} {op : Opcode} {trees : List Resolved} (h : names.Heads e op)
    (hbecome : List.Forall₂ (Expr.Becomes names.rules names.udts) e.operands trees) :
    ∃ tree, op.lowered.applied trees = some tree ∧ e.Becomes names.rules names.udts tree := by
  cases h with
  | alt => exact ⟨_, rfl, .alt hbecome⟩
  | cat => exact ⟨_, rfl, .cat hbecome⟩
  | rnm found =>
    obtain ⟨n, hn, hs⟩ := resolveName_eq_rule found
    cases hbecome
    exact ⟨_, rfl, .rule hn (sameName_iff.1 hs).symm⟩
  | rnmUdt found =>
    obtain ⟨n, hn, hs⟩ := resolveName_eq_udt found
    cases hbecome
    exact ⟨_, rfl, .terminal hn (sameName_iff.1 hs).symm⟩
  | udt found =>
    obtain ⟨n, hn, hs⟩ := resolveName_eq_udt found
    cases hbecome
    exact ⟨_, rfl, .udt hn (sameName_iff.1 hs).symm⟩
  | rep =>
    obtain _ | ⟨below, _ | _⟩ := hbecome
    exact ⟨_, rfl, .rep below⟩
  | trg =>
    cases hbecome
    exact ⟨_, rfl, .trg⟩
  | tbs =>
    cases hbecome
    exact ⟨_, rfl, .tbs⟩
  | tls =>
    cases hbecome
    exact ⟨_, rfl, .tls⟩
  | and =>
    obtain _ | ⟨below, _ | _⟩ := hbecome
    exact ⟨_, rfl, .and below⟩
  | not =>
    obtain _ | ⟨below, _ | _⟩ := hbecome
    exact ⟨_, rfl, .not below⟩

mutual

/-- **What is read is what the expression becomes,** if enough levels are read. -/
theorem Names.Emitted.reads {names : Names} {ops : Array Opcode} : ∀ {e : Expr} {i : Nat} {part : List Opcode},
    names.Emitted e i part → HoldsFrom ops i part → ∀ depth, part.length ≤ depth →
      ∃ tree, readTree ops depth i = some tree ∧ e.Becomes names.rules names.udts tree
  | _, _, _, .node head row, hold, 0, hdepth => by cases hdepth
  | _, _, _, @Names.Emitted.node _ _ op _ _ head row, hold, depth + 1, hdepth => by
    obtain ⟨trees, hread, hbecome⟩ := row.reads hold.tail depth (Nat.le_of_succ_le_succ hdepth)
    obtain ⟨tree, happlied, htree⟩ := head.applied hbecome
    refine ⟨tree, ?_, htree⟩
    simp only [readTree, hold.head, Option.bind_eq_bind, Option.bind_some, op.children_lowered, hread, happlied]

theorem Names.EmittedAll.reads {names : Names} {ops : Array Opcode} : ∀ {es : List Expr} {i : Nat} {cs : List Nat}
    {part : List Opcode}, names.EmittedAll es i cs part → HoldsFrom ops i part → ∀ depth, part.length ≤ depth →
      ∃ trees, cs.mapM (readTree ops depth) = some trees ∧ List.Forall₂ (Expr.Becomes names.rules names.udts) es trees
  | _, _, _, _, .nil, _, _, _ => ⟨[], rfl, .nil⟩
  | _, _, _, _, .cons first others, hold, depth, hdepth => by
    rw [List.length_append] at hdepth
    obtain ⟨tree, hread, htree⟩ := first.reads hold.left depth (by omega)
    obtain ⟨trees, hreads, htrees⟩ := others.reads hold.right depth (by omega)
    exact ⟨tree :: trees, by rw [List.mapM_cons, hread, hreads]; rfl, .cons htree htrees⟩

end

theorem Names.Emitted.tree? {names : Names} {e : Expr} {part : List Opcode} (h : names.Emitted e 0 part) (name : Text) :
    ∃ tree, (Rule.ofTable (name, part)).tree? = some tree ∧ e.Becomes names.rules names.udts tree :=
  h.reads (HoldsFrom.ofTable (name, part)) _ (by simp [Rule.ofTable])

/-! ## Grammars -/

theorem mapM_eq_error {ε α β : Type} {f : α → Except ε β} {err : ε} :
    ∀ {xs : List α}, xs.mapM f = .error err → ∃ x ∈ xs, f x = .error err
  | [], h => by cases h
  | x :: xs, h => by
    rw [List.mapM_cons] at h
    rcases except_bind_eq_error.1 h with h | ⟨_, -, h⟩
    · exact ⟨x, List.mem_cons_self, h⟩
    rcases except_bind_eq_error.1 h with h | ⟨_, -, h⟩
    · obtain ⟨y, hy, h⟩ := mapM_eq_error h
      exact ⟨y, List.mem_cons_of_mem _ hy, h⟩
    · cases h

section

variable {rules : List (Text × Expr)} {udts : List (Text × Bool)}

theorem Grammar.ofTables_eq_error {tables : List (Text × List Opcode)} {err : GrammarError}
    (hd : firstRepeated [] (tables.map (·.1) ++ udts.map (·.1)) = none) (h : Grammar.ofTables tables udts = .error err) :
    ∃ t ∈ tables, ruleFault? tables.length udts.length t = some err := by
  unfold ofTables tablesFault? at h
  rw [hd] at h
  dsimp only at h
  split at h
  · rename_i hfault
    cases h
    exact List.exists_of_findSome?_eq_some hfault
  · cases h

/-- **Why expressions are no grammar:** a name is repeated, or a name in a rule is not declared, or a rule has a fault. -/
theorem Grammar.ofExprs_eq_error {err : GrammarError} (h : Grammar.ofExprs rules udts = .error err) :
    (∃ name, err = .duplicateName name ∧ firstRepeated [] (rules.map (·.1) ++ udts.map (·.1)) = some name) ∨
    (∃ r ∈ rules, r.2.opcodes (namesOf rules udts) r.1 0 = .error err) ∨
    ∃ r ∈ rules, ∃ part, (namesOf rules udts).Emitted r.2 0 part ∧
      ruleFault? (namesOf rules udts).rules.length (namesOf rules udts).udts.length (r.1, part) = some err := by
  unfold ofExprs at h
  dsimp only at h
  split at h
  · rename_i name hrep
    exact .inl ⟨name, (Except.error.inj h).symm, hrep⟩
  rename_i hnone
  rcases except_bind_eq_error.1 h with h | ⟨tables, ht, h⟩
  · obtain ⟨r, hr, h⟩ := mapM_eq_error h
    rcases except_bind_eq_error.1 h with h | ⟨_, -, h⟩
    · rw [Expr.flatten_eq] at h
      exact .inr (.inl ⟨r, hr, h⟩)
    · cases h
  · have hlaid := opcodes_of_mapM ht
    rw [names_of_laid hlaid] at hnone
    obtain ⟨t, hmem, hfault⟩ := ofTables_eq_error hnone h
    obtain ⟨r, hr, hname, hops⟩ := exists_mem_of_forall₂ hlaid hmem
    rw [← hlaid.length_eq] at hfault
    refine .inr (.inr ⟨r, hr, t.2, Names.emitted_of_opcodes hops, ?_⟩)
    rwa [hname, namesOf, List.length_map, List.length_map]

/-- **What the rules of a grammar are:** tables of their expressions, with nothing wrong in them. -/
theorem Grammar.emitted_ofExprs {g : Grammar} (h : Grammar.ofExprs rules udts = .ok g) {i : Nat} {r : Text × Expr}
    (hi : rules[i]? = some r) : ∃ part, (namesOf rules udts).Emitted r.2 0 part ∧
      g.rules[i]? = some (Rule.ofTable (r.1, part)) ∧
      ruleFault? (namesOf rules udts).rules.length (namesOf rules udts).udts.length (r.1, part) = none := by
  obtain ⟨hdistinct, tables, hlaid, hg⟩ := ofExprs_eq_ok h
  obtain ⟨hfault, hrules, -⟩ := ofTables_eq_ok hg
  obtain ⟨hlt, rfl⟩ := List.getElem?_eq_some_iff.1 hi
  have hlt' : i < tables.length := by rwa [← hlaid.length_eq]
  obtain ⟨hname, hops⟩ := hlaid.get hlt hlt'
  simp only [List.get_eq_getElem] at hname hops
  have htable : (rules[i].1, tables[i].2) = tables[i] := Prod.ext hname rfl
  refine ⟨tables[i].2, Names.emitted_of_opcodes hops, ?_, ?_⟩
  · rw [hrules, List.getElem?_toArray, List.getElem?_map, List.getElem?_eq_getElem hlt', htable]
    rfl
  · rw [names_of_laid hlaid] at hdistinct
    rw [tablesFault?, hdistinct] at hfault
    rw [htable, namesOf, List.length_map, List.length_map, hlaid.length_eq]
    exact List.findSome?_eq_none_iff.1 hfault _ (List.getElem_mem hlt')

theorem Grammar.not_structural_ofExprs {err : GrammarError} (h : Grammar.ofExprs rules udts = .error err) :
    ¬ err.Structural := by
  rcases ofExprs_eq_error h with ⟨name, rfl, -⟩ | ⟨r, -, h⟩ | ⟨r, -, part, hemitted, hfault⟩
  · exact not_false
  · obtain ⟨⟨name, rfl⟩, -⟩ := opcodes_eq_error h
    exact not_false
  · exact hemitted.not_structural hfault

/-- **Expressions make a grammar** exactly if their names are distinct and everything in them is sound. -/
theorem Grammar.exists_ofExprs_iff : (∃ g, Grammar.ofExprs rules udts = .ok g) ↔
    ((rules.map (·.1) ++ udts.map (·.1)).map foldCase).Nodup ∧
      ∀ r ∈ rules, ∀ e ∈ r.2.parts, e.Sound (rules.map (·.1)) (udts.map (·.1)) := by
  constructor
  · rintro ⟨g, h⟩
    refine ⟨(firstRepeated_eq_none.1 (ofExprs_eq_ok h).1).2, fun r hr => ?_⟩
    obtain ⟨i, hi⟩ := List.getElem?_of_mem hr
    obtain ⟨part, hemitted, -, hfault⟩ := emitted_ofExprs h hi
    exact hemitted.ruleFault?_eq_none.1 hfault
  · rintro ⟨hd, hsound⟩
    cases h : Grammar.ofExprs rules udts with
    | ok g => exact ⟨g, rfl⟩
    | error err =>
      rcases ofExprs_eq_error h with ⟨name, -, hrep⟩ | ⟨r, hr, h⟩ | ⟨r, hr, part, hemitted, hfault⟩
      · rw [firstRepeated_eq_none.2 ⟨fun _ _ => List.not_mem_nil, hd⟩] at hrep
        cases hrep
      · obtain ⟨-, x, hx, hnone⟩ := opcodes_eq_error h
        obtain ⟨op, hop⟩ := @Names.exists_heads (namesOf rules udts) x hd (hsound r hr x hx)
        exact absurd hop (hnone op)
      · rw [hemitted.ruleFault?_eq_none.2 (hsound r hr)] at hfault
        cases hfault

end

/-- **Flattening is faithful.**  Expressions make a grammar exactly if their names are distinct and everything in them is
sound, and no fault of the opcodes themselves is ever found.  Every rule of the grammar has its opcodes in pre-order, and
what is read back from them is its expression with ids for names. -/
theorem Grammar.ofExprs_faithful (rules : List (Text × Expr)) (udts : List (Text × Bool)) :
    ((∃ g, Grammar.ofExprs rules udts = .ok g) ↔
      ((rules.map (·.1) ++ udts.map (·.1)).map foldCase).Nodup ∧
        ∀ r ∈ rules, ∀ e ∈ r.2.parts, e.Sound (rules.map (·.1)) (udts.map (·.1))) ∧
    (∀ err, Grammar.ofExprs rules udts = .error err → ¬ err.Structural) ∧
    ∀ g, Grammar.ofExprs rules udts = .ok g →
      g.rules.size = rules.length ∧ g.udts = (udts.map fun u => (⟨u.1, u.2⟩ : Udt)).toArray ∧
      ∀ (i : Nat) (name : Text) (body : Expr), rules[i]? = some (name, body) →
        ∃ rule tree, g.rules[i]? = some rule ∧ rule.name = name ∧ IsPreorder rule.opcodes ∧
          rule.tree? = some tree ∧ body.Becomes (rules.map (·.1)) (udts.map (·.1)) tree := by
  refine ⟨exists_ofExprs_iff, fun _ => not_structural_ofExprs, fun g hg => ?_⟩
  obtain ⟨-, tables, hlaid, htables⟩ := ofExprs_eq_ok hg
  obtain ⟨-, hrules, hudts⟩ := ofTables_eq_ok htables
  refine ⟨?_, hudts, fun i name body hi => ?_⟩
  · rw [hrules, List.size_toArray, List.length_map, hlaid.length_eq]
  · obtain ⟨part, hemitted, hrule, -⟩ := emitted_ofExprs hg hi
    obtain ⟨tree, htree, hbecome⟩ := hemitted.tree? name
    exact ⟨_, tree, hrule, rfl, hemitted.isPreorder, htree, hbecome⟩

theorem Grammar.ofExprs_faithful_list :
    (∃ g, Grammar.ofExprs [("list", .cat [.rnm "Digit", .star (.cat [.tls "A,", .udt "digit"])])] [("digit", false)] = .ok g) ∧
    IsPreorder #[.cat [1, 2], .udt ⟨0⟩, .rep 0 none 3, .cat [4, 5], .tls "a,", .udt ⟨0⟩] ∧
    (∃ tree, readTree #[.cat [1, 2], .udt ⟨0⟩, .rep 0 none 3, .cat [4, 5], .tls "a,", .udt ⟨0⟩] 6 0 = some tree ∧
      Expr.Becomes ["list"] ["digit"] (.cat [.rnm "Digit", .star (.cat [.tls "A,", .udt "digit"])]) tree) ∧
    Grammar.ofExprs [("list", .tbs [])] [] = .error (.emptyLiteral "list" 0) ∧
    ¬ (GrammarError.emptyLiteral "list" 0).Structural := by
  have hg : Grammar.ofExprs [("list", .cat [.rnm "Digit", .star (.cat [.tls "A,", .udt "digit"])])] [("digit", false)] =
      .ok ⟨#[⟨"list", #[.cat [1, 2], .udt ⟨0⟩, .rep 0 none 3, .cat [4, 5], .tls "a,", .udt ⟨0⟩]⟩], #[⟨"digit", false⟩]⟩ := rfl
  have herr : Grammar.ofExprs [("list", .tbs [])] [] = .error (.emptyLiteral "list" 0) := rfl
  obtain ⟨rule, tree, hrule, -, hpre, htree, hbecome⟩ := ((ofExprs_faithful _ _).2.2 _ hg).2.2 0 _ _ rfl
  cases hrule
  exact ⟨⟨_, hg⟩, hpre, ⟨tree, htree, hbecome⟩, herr, (ofExprs_faithful _ _).2.1 _ herr⟩

end SignIn
