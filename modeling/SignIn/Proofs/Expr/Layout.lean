import SignIn.Match.Parse
import SignIn.Proofs.Expr.Emission
import SignIn.Proofs.Expr.Outcome
import SignIn.Proofs.Grammar.WellFormed
/-!
# Expressions and the opcodes they are laid out as

`Names.Laid` says that an array of opcodes holds an expression at an index, with names looked up and literals in lower
case; it is written without regard to how opcodes are emitted.  What `Expr.opcodes` computes is laid out
(`laid_opcodes`), so a grammar made from expressions holds each of its rules (`Grammar.ofExprs_eq_ok`).

`Lexicon.HeldBy` says that of a whole matcher, callbacks included.
-/
namespace SignIn

/-- **Opcodes hold an expression at an index.** -/
inductive Names.Laid (names : Names) (ops : Array Opcode) : Nat → Expr → Prop where
  | alt {i children items} (here : ops[i]? = some (.alt children))
      (below : List.Forall₂ (Names.Laid names ops) children items) :
    Names.Laid names ops i (.alt items)
  | cat {i children items} (here : ops[i]? = some (.cat children))
      (below : List.Forall₂ (Names.Laid names ops) children items) :
    Names.Laid names ops i (.cat items)
  | rep {i min max child item} (here : ops[i]? = some (.rep min max child)) (below : Names.Laid names ops child item) :
    Names.Laid names ops i (.rep min max item)
  | rnm {i id name} (here : ops[i]? = some (.rnm id)) (found : resolveName names.rules names.udts name = some (.rule id)) :
    Names.Laid names ops i (.rnm name)
  | rnmUdt {i id name} (here : ops[i]? = some (.udt id)) (found : resolveName names.rules names.udts name = some (.udt id)) :
    Names.Laid names ops i (.rnm name)
  | udt {i id name} (here : ops[i]? = some (.udt id)) (found : resolveName names.rules names.udts name = some (.udt id)) :
    Names.Laid names ops i (.udt name)
  | trg {i min max} (here : ops[i]? = some (.trg min max)) : Names.Laid names ops i (.trg min max)
  | tbs {i text} (here : ops[i]? = some (.tbs text)) : Names.Laid names ops i (.tbs text)
  | tls {i text} (here : ops[i]? = some (.tls (foldCase text))) : Names.Laid names ops i (.tls text)
  | and {i child item} (here : ops[i]? = some (.and child)) (below : Names.Laid names ops child item) :
    Names.Laid names ops i (.and item)
  | not {i child item} (here : ops[i]? = some (.not child)) (below : Names.Laid names ops child item) :
    Names.Laid names ops i (.not item)

/-- An array holds a list of opcodes from an index on, their literals in lower case. -/
def HoldsFrom (ops : Array Opcode) (start : Nat) (part : List Opcode) : Prop :=
  ∀ j op, part[j]? = some op → ops[start + j]? = some op.lowered

theorem HoldsFrom.head {ops : Array Opcode} {start : Nat} {op : Opcode} {part : List Opcode}
    (h : HoldsFrom ops start (op :: part)) : ops[start]? = some op.lowered := h 0 op rfl

theorem HoldsFrom.tail {ops : Array Opcode} {start : Nat} {op : Opcode} {part : List Opcode}
    (h : HoldsFrom ops start (op :: part)) : HoldsFrom ops (start + 1) part := fun j op' hj => by
  rw [Nat.add_assoc, Nat.add_comm 1]
  exact h (j + 1) op' hj

theorem HoldsFrom.left {ops : Array Opcode} {start : Nat} {part rest : List Opcode}
    (h : HoldsFrom ops start (part ++ rest)) : HoldsFrom ops start part := fun j op hj => by
  refine h j op ?_
  rw [List.getElem?_append_left (List.getElem?_eq_some_iff.1 hj).1]
  exact hj

theorem HoldsFrom.right {ops : Array Opcode} {start : Nat} {part rest : List Opcode}
    (h : HoldsFrom ops start (part ++ rest)) : HoldsFrom ops (start + part.length) rest := fun j op hj => by
  rw [Nat.add_assoc]
  refine h (part.length + j) op ?_
  rw [List.getElem?_append_right (Nat.le_add_right _ _), Nat.add_sub_cancel_left]
  exact hj

/-- An operator that stands above what its operands are laid out as. -/
theorem Names.Heads.laid {names : Names} {ops : Array Opcode} {e : Expr} {op : Opcode} {i : Nat} (h : names.Heads e op)
    (here : ops[i]? = some op.lowered) (below : List.Forall₂ (names.Laid ops) op.children e.operands) :
    names.Laid ops i e := by
  cases h with
  | alt => exact .alt here below
  | cat => exact .cat here below
  | rep => exact .rep here (List.forall₂_cons.1 below).1
  | rnm found => exact .rnm here found
  | rnmUdt found => exact .rnmUdt here found
  | udt found => exact .udt here found
  | trg => exact .trg here
  | tbs => exact .tbs here
  | tls => exact .tls here
  | and => exact .and here (List.forall₂_cons.1 below).1
  | not => exact .not here (List.forall₂_cons.1 below).1

mutual

theorem Names.Emitted.laid {names : Names} {ops : Array Opcode} : ∀ {e : Expr} {start : Nat} {part : List Opcode},
    names.Emitted e start part → HoldsFrom ops start part → names.Laid ops start e
  | _, _, _, .node head row, hold => head.laid hold.head (row.laid hold.tail)

theorem Names.EmittedAll.laid {names : Names} {ops : Array Opcode} : ∀ {es : List Expr} {start : Nat} {cs : List Nat}
    {part : List Opcode}, names.EmittedAll es start cs part → HoldsFrom ops start part → List.Forall₂ (names.Laid ops) cs es
  | _, _, _, _, .nil, _ => .nil
  | _, _, _, _, .cons first others, hold => .cons (first.laid hold.left) (others.laid hold.right)

end

/-- **What an expression is laid out as, holds it.** -/
theorem laid_opcodes {names : Names} {rule : Text} {ops : Array Opcode} {e : Expr} {start : Nat} {part : List Opcode}
    (h : e.opcodes names rule start = .ok part) (hold : HoldsFrom ops start part) : names.Laid ops start e :=
  (Names.emitted_of_opcodes h).laid hold

/-! ## Grammars made from expressions -/

theorem HoldsFrom.ofTable (rule : Text × List Opcode) : HoldsFrom (Rule.ofTable rule).opcodes 0 rule.2 :=
  fun j op hj => by simp [Rule.ofTable, hj]

/-- The names of the rules and terminals of a grammar. -/
def namesOf (rules : List (Text × Expr)) (udts : List (Text × Bool)) : Names := ⟨rules.map (·.1), udts.map (·.1)⟩

/-- Laying out rules keeps their order and their names. -/
theorem opcodes_of_mapM {names : Names} :
    ∀ {rules : List (Text × Expr)} {tables : List (Text × List Opcode)},
      rules.mapM (fun r => do return (r.1, ← r.2.flatten names r.1)) = Except.ok tables →
      List.Forall₂ (fun r t => r.1 = t.1 ∧ r.2.opcodes names r.1 0 = .ok t.2) rules tables
  | [], tables, h => by
    cases h
    exact .nil
  | r :: rules, tables, h => by
    rw [List.mapM_cons] at h
    obtain ⟨t, ht, h⟩ := except_bind_eq_ok.1 h
    obtain ⟨ts, hts, h⟩ := except_bind_eq_ok.1 h
    obtain ⟨part, hpart, ht⟩ := except_bind_eq_ok.1 ht
    rw [Expr.flatten_eq] at hpart
    cases h
    cases ht
    exact .cons ⟨rfl, hpart⟩ (opcodes_of_mapM hts)

/-- **A grammar made from expressions:** its rules are those of accepted tables, each with the opcodes of its
expression. -/
theorem Grammar.ofExprs_eq_ok {rules : List (Text × Expr)} {udts : List (Text × Bool)} {g : Grammar}
    (h : Grammar.ofExprs rules udts = .ok g) :
    firstRepeated [] (rules.map (·.1) ++ udts.map (·.1)) = none ∧
    ∃ tables, List.Forall₂ (fun r t => r.1 = t.1 ∧ r.2.opcodes (namesOf rules udts) r.1 0 = .ok t.2) rules tables ∧
      Grammar.ofTables tables udts = .ok g := by
  unfold ofExprs at h
  dsimp only at h
  split at h
  · cases h
  · rename_i hrep
    obtain ⟨tables, ht, hg⟩ := except_bind_eq_ok.1 h
    exact ⟨hrep, tables, opcodes_of_mapM ht, hg⟩

/-- **A matcher holds the expressions of a lexicon:** rule for rule, terminal for terminal, callback for
callback, and counts in what the lexicon does. -/
structure Lexicon.HeldBy {D : Type} (l : Lexicon D) (m : Matcher D) : Prop where
  rule : ∀ (id : RuleId) name body, l.rules[id.index]? = some (name, body) →
    ∃ ops, m.grammar.rules[id.index]? = some ⟨name, ops⟩ ∧ l.names.Laid ops 0 body
  udt : ∀ id : UdtId, m.grammar.udts[id.index]? = (l.udts[id.index]?).map fun u => ⟨u.1, u.2⟩
  onRule : ∀ id, m.ruleCallback? id = l.onRule id
  onUdt : ∀ id, m.udtCallback? id = l.onUdt id
  counter : m.counter = l.counter

/-- The lexicon of expressions, with the callbacks of a matcher and its counter. -/
def Matcher.lexicon {D : Type} (m : Matcher D) (rules : List (Text × Expr)) (udts : List (Text × Bool)) : Lexicon D :=
  ⟨rules, udts, m.ruleCallback?, m.udtCallback?, m.counter⟩

theorem Matcher.counter_lexicon {D : Type} (m : Matcher D) (rules : List (Text × Expr)) (udts : List (Text × Bool)) :
    (m.lexicon rules udts).counter = m.counter := rfl

theorem names_of_laid {P : Text × Expr → Text × List Opcode → Prop} : ∀ {rules : List (Text × Expr)}
    {tables : List (Text × List Opcode)}, List.Forall₂ (fun r t => r.1 = t.1 ∧ P r t) rules tables →
      rules.map (·.1) = tables.map (·.1)
  | _, _, .nil => rfl
  | _, _, .cons h hs => by rw [List.map_cons, List.map_cons, h.1, names_of_laid hs]

/-- A name stands for the same in the expressions and in the grammar made from them. -/
theorem Matcher.resolve_lexicon {D : Type} {m : Matcher D} {rules : List (Text × Expr)} {udts : List (Text × Bool)}
    (h : Grammar.ofExprs rules udts = .ok m.grammar) (name : Text) :
    (m.lexicon rules udts).resolve name = m.grammar.lookup name := by
  obtain ⟨-, tables, hlaid, hg⟩ := Grammar.ofExprs_eq_ok h
  obtain ⟨-, hr, hu⟩ := Grammar.ofTables_eq_ok hg
  have hrules : m.grammar.rules.toList.map Rule.name = rules.map (·.1) := by
    rw [names_of_laid hlaid, hr, List.toList_toArray, List.map_map]
    rfl
  have hudts : m.grammar.udts.toList.map Udt.name = udts.map (·.1) := by
    rw [hu, List.toList_toArray, List.map_map]
    rfl
  rw [Grammar.lookup, hrules, hudts]
  rfl

/-- **A matcher of a grammar made from expressions holds them.** -/
theorem Matcher.holds_lexicon {D : Type} {m : Matcher D} {rules : List (Text × Expr)} {udts : List (Text × Bool)}
    (h : Grammar.ofExprs rules udts = .ok m.grammar) : (m.lexicon rules udts).HeldBy m := by
  obtain ⟨-, tables, hlaid, hg⟩ := Grammar.ofExprs_eq_ok h
  obtain ⟨-, hr, hu⟩ := Grammar.ofTables_eq_ok hg
  refine ⟨fun id name body hid => ?_, fun id => ?_, fun _ => rfl, fun _ => rfl, rfl⟩
  · have hid : rules[id.index]? = some (name, body) := hid
    obtain ⟨hlt, hget⟩ := List.getElem?_eq_some_iff.1 hid
    have hlt' : id.index < tables.length := by rw [← hlaid.length_eq]; exact hlt
    obtain ⟨hname, hops⟩ := hlaid.get hlt hlt'
    simp only [List.get_eq_getElem, hget] at hname hops
    refine ⟨_, ?_, laid_opcodes hops (HoldsFrom.ofTable tables[id.index])⟩
    rw [hr, List.getElem?_toArray, List.getElem?_map, List.getElem?_eq_getElem hlt', Option.map_some, hname]
    rfl
  · rw [hu, List.getElem?_toArray, List.getElem?_map]
    rfl

end SignIn
