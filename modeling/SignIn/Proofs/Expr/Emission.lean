import Mathlib.Data.List.Forall2
import SignIn.Grammar.Expr
/-!
# What is emitted for an expression

In pre-order the index of an operand is known before its opcodes are, so the opcodes of an expression can be computed
from the index that they start at, with no place held for an operator (`Expr.opcodes`).  That is what the emitter does:
whatever is there already, it leaves alone and puts these opcodes behind it (`emits_emit`), with every stand-in replaced.
-/
namespace SignIn

mutual

/-- **The opcodes of an expression,** the first of them at index `start`. -/
def Expr.opcodes (names : Names) (rule : Text) (start : Nat) : Expr → Except GrammarError (List Opcode)
  | .alt items => (Expr.opcodesOfAll names rule (start + 1) items).map fun p => .alt p.1 :: p.2
  | .cat items => (Expr.opcodesOfAll names rule (start + 1) items).map fun p => .cat p.1 :: p.2
  | .rep min max item => (item.opcodes names rule (start + 1)).map fun ops => .rep min max (start + 1) :: ops
  | .rnm name => (names.reference rule name).map fun op => [op]
  | .udt name => (names.terminal rule name).map fun op => [op]
  | .trg min max => .ok [.trg min max]
  | .tbs literal => .ok [.tbs literal]
  | .tls literal => .ok [.tls literal]
  | .and item => (item.opcodes names rule (start + 1)).map fun ops => .and (start + 1) :: ops
  | .not item => (item.opcodes names rule (start + 1)).map fun ops => .not (start + 1) :: ops

def Expr.opcodesOfAll (names : Names) (rule : Text) (start : Nat) : List Expr → Except GrammarError (List Nat × List Opcode)
  | [] => .ok ([], [])
  | item :: items => do
    let ops ← item.opcodes names rule start
    let (children, rest) ← Expr.opcodesOfAll names rule (start + ops.length) items
    return (start :: children, ops ++ rest)

end

section

variable {ε α β : Type} {x : Except ε α} {e : ε} {b : β}

theorem except_bind_eq_ok {f : α → Except ε β} : x >>= f = .ok b ↔ ∃ a, x = .ok a ∧ f a = .ok b := by
  cases x <;> simp [bind, Except.bind]

theorem except_bind_eq_error {f : α → Except ε β} : x >>= f = .error e ↔ x = .error e ∨ ∃ a, x = .ok a ∧ f a = .error e := by
  cases x <;> simp [bind, Except.bind]

/-- What follows matters only where something follows. -/
theorem except_bind_congr {f g : α → Except ε β} (h : ∀ a, x = .ok a → f a = g a) : x >>= f = x >>= g := by
  cases x with
  | error e => rfl
  | ok a => exact h a rfl

theorem except_map_eq_ok {f : α → β} : x.map f = .ok b ↔ ∃ a, x = .ok a ∧ f a = b := by
  cases x <;> simp [Except.map]

theorem except_map_eq_error {f : α → β} : x.map f = .error e ↔ x = .error e := by
  cases x <;> simp [Except.map]

end

namespace Emitter

variable {α β : Type} {m : Emitter α} {spec : Nat → Except GrammarError (α × List Opcode)}

/-- **What an emitter does** depends on how many opcodes are there and on nothing else, and leaves these alone. -/
def Emits (m : Emitter α) (spec : Nat → Except GrammarError (α × List Opcode)) : Prop :=
  ∀ ops : Array Opcode, m.run ops = (spec ops.size).map fun p => (p.1, ops ++ p.2.toArray)

theorem Emits.congr {spec' : Nat → Except GrammarError (α × List Opcode)} (h : Emits m spec)
    (heq : ∀ start, spec start = spec' start) : Emits m spec' := (funext heq : spec = spec') ▸ h

theorem emits_pure (a : α) : Emits (pure a) fun _ => .ok (a, []) := fun ops => by
  simp only [Except.map, Array.append_empty]
  rfl

theorem emits_lift (x : Except GrammarError α) : Emits (liftM x) fun _ => x.map fun a => (a, []) := fun ops => by
  cases x with
  | ok a => exact emits_pure a ops
  | error e => rfl

theorem Emits.bind {k : α → Emitter β} {next : α → Nat → Except GrammarError (β × List Opcode)} (h : Emits m spec)
    (hk : ∀ a, Emits (k a) (next a)) : Emits (m >>= k) fun start => do
      let (a, first) ← spec start
      let (b, rest) ← next a (start + first.length)
      return (b, first ++ rest) := fun ops => by
  have hsize (part : List Opcode) : (ops ++ part.toArray).size = ops.size + part.length := by simp
  dsimp only
  rw [StateT.run_bind, h ops]
  cases spec ops.size with
  | error e => rfl
  | ok p =>
    show (k p.1).run (ops ++ p.2.toArray) = Except.map _ (next p.1 (ops.size + p.2.length) >>= _)
    rw [hk, hsize]
    cases next p.1 (ops.size + p.2.length) with
    | error e => rfl
    | ok q =>
      show Except.ok (q.1, ops ++ p.2.toArray ++ q.2.toArray) = Except.ok (q.1, ops ++ (p.2 ++ q.2).toArray)
      simp only [Array.append_assoc, List.append_toArray]

theorem Emits.map (h : Emits m spec) (f : α → β) :
    Emits (do return f (← m)) fun start => (spec start).map fun p => (f p.1, p.2) := fun ops => by
  dsimp only
  rw [StateT.run_bind, h ops]
  cases spec ops.size <;> rfl

/-- The stand-in is replaced, wherever the operands have been put. -/
theorem fill (ops : Array Opcode) (held op : Opcode) (part : List Opcode) :
    (ops.push held ++ part.toArray).setIfInBounds ops.size op = ops ++ (op :: part).toArray := by
  apply Array.toList_inj.1
  simp

theorem Emits.placed {m : Emitter Opcode} {spec : Nat → Except GrammarError (Opcode × List Opcode)} (h : Emits m spec) :
    Emits m.placed fun start => (spec (start + 1)).map fun p => (start, p.1 :: p.2) := fun ops => by
  dsimp only
  show (m.run (ops.push (.alt [])) >>= fun p => .ok (ops.size, p.2.setIfInBounds ops.size p.1)) = _
  rw [h, Array.size_push]
  cases spec (ops.size + 1) with
  | error e => rfl
  | ok p =>
    show Except.ok (ops.size, (ops.push (.alt []) ++ p.2.toArray).setIfInBounds ops.size p.1) = _
    rw [fill]
    rfl

end Emitter

mutual

/-- **The emitter puts the opcodes of an expression behind those that are there,** and tells the index of the first. -/
theorem emits_emit (names : Names) (rule : Text) : ∀ e : Expr, (e.emit names rule).Emits fun start =>
    (e.opcodes names rule start).map fun part => (start, part)
  | .alt items => ((emits_emitAll names rule items).map Opcode.alt).placed.congr fun start => by
    rw [Expr.opcodes]
    cases Expr.opcodesOfAll names rule (start + 1) items <;> rfl
  | .cat items => ((emits_emitAll names rule items).map Opcode.cat).placed.congr fun start => by
    rw [Expr.opcodes]
    cases Expr.opcodesOfAll names rule (start + 1) items <;> rfl
  | .rep min max item => ((emits_emit names rule item).map (Opcode.rep min max)).placed.congr fun start => by
    rw [Expr.opcodes]
    cases item.opcodes names rule (start + 1) <;> rfl
  | .rnm name => (Emitter.emits_lift (names.reference rule name)).placed.congr fun start => by
    rw [Expr.opcodes]
    cases names.reference rule name <;> rfl
  | .udt name => (Emitter.emits_lift (names.terminal rule name)).placed.congr fun start => by
    rw [Expr.opcodes]
    cases names.terminal rule name <;> rfl
  | .trg min max => (Emitter.emits_pure (Opcode.trg min max)).placed.congr fun _ => rfl
  | .tbs literal => (Emitter.emits_pure (Opcode.tbs literal)).placed.congr fun _ => rfl
  | .tls literal => (Emitter.emits_pure (Opcode.tls literal)).placed.congr fun _ => rfl
  | .and item => ((emits_emit names rule item).map Opcode.and).placed.congr fun start => by
    rw [Expr.opcodes]
    cases item.opcodes names rule (start + 1) <;> rfl
  | .not item => ((emits_emit names rule item).map Opcode.not).placed.congr fun start => by
    rw [Expr.opcodes]
    cases item.opcodes names rule (start + 1) <;> rfl

theorem emits_emitAll (names : Names) (rule : Text) : ∀ items : List Expr,
    (Expr.emitAll names rule items).Emits fun start => Expr.opcodesOfAll names rule start items
  | [] => Emitter.emits_pure []
  | item :: items =>
    ((emits_emit names rule item).bind fun index => (emits_emitAll names rule items).map fun indices => index :: indices).congr
      fun start => by
        rw [Expr.opcodesOfAll]
        cases item.opcodes names rule start with
        | error e => rfl
        | ok ops =>
          show (Except.map _ (Expr.opcodesOfAll names rule (start + ops.length) items) >>= _) =
            (Expr.opcodesOfAll names rule (start + ops.length) items >>= _)
          cases Expr.opcodesOfAll names rule (start + ops.length) items <;> rfl

end

/-- **The opcodes of a rule** are those that start at its root. -/
theorem Expr.flatten_eq (names : Names) (rule : Text) (e : Expr) : e.flatten names rule = e.opcodes names rule 0 := by
  rw [flatten, emits_emit]
  dsimp only [List.size_toArray, List.length_nil]
  cases e.opcodes names rule 0 with
  | error e => rfl
  | ok part =>
    show Except.ok (#[] ++ part.toArray).toList = Except.ok part
    rw [Array.empty_append]

/-! ## Operators and operands -/

namespace Expr

def operands : Expr → List Expr
  | .alt items | .cat items => items
  | .rep _ _ item | .and item | .not item => [item]
  | _ => []

mutual

/-- **An expression and all that is in it,** in pre-order. -/
def parts : Expr → List Expr
  | .alt items => .alt items :: partsOfAll items
  | .cat items => .cat items :: partsOfAll items
  | .rep min max item => .rep min max item :: item.parts
  | .and item => .and item :: item.parts
  | .not item => .not item :: item.parts
  | e => [e]

def partsOfAll : List Expr → List Expr
  | [] => []
  | item :: items => item.parts ++ partsOfAll items

end

theorem parts_eq (e : Expr) : e.parts = e :: partsOfAll e.operands := by
  cases e <;> simp [parts, partsOfAll, operands]

end Expr

namespace Names

/-- **The opcode of an expression,** whatever its operands are. -/
inductive Heads (names : Names) : Expr → Opcode → Prop where
  | alt {items cs} : Heads names (.alt items) (.alt cs)
  | cat {items cs} : Heads names (.cat items) (.cat cs)
  | rep {min max item c} : Heads names (.rep min max item) (.rep min max c)
  | rnm {id name} (found : resolveName names.rules names.udts name = some (.rule id)) : Heads names (.rnm name) (.rnm id)
  | rnmUdt {id name} (found : resolveName names.rules names.udts name = some (.udt id)) : Heads names (.rnm name) (.udt id)
  | udt {id name} (found : resolveName names.rules names.udts name = some (.udt id)) : Heads names (.udt name) (.udt id)
  | trg {min max} : Heads names (.trg min max) (.trg min max)
  | tbs {text} : Heads names (.tbs text) (.tbs text)
  | tls {text} : Heads names (.tls text) (.tls text)
  | and {item c} : Heads names (.and item) (.and c)
  | not {item c} : Heads names (.not item) (.not c)

mutual

/-- **A list of opcodes is an expression's,** the first of them at an index: its operator, and behind it its operands. -/
inductive Emitted (names : Names) : Expr → Nat → List Opcode → Prop where
  | node {e op i rest} (head : names.Heads e op) (row : EmittedAll names e.operands (i + 1) op.children rest) :
    Emitted names e i (op :: rest)

inductive EmittedAll (names : Names) : List Expr → Nat → List Nat → List Opcode → Prop where
  | nil {i} : EmittedAll names [] i [] []
  | cons {e es i part cs rest} (first : Emitted names e i part) (others : EmittedAll names es (i + part.length) cs rest) :
    EmittedAll names (e :: es) i (i :: cs) (part ++ rest)

end

variable {names : Names} {rule name : Text} {op : Opcode}

theorem reference_eq_ok (h : names.reference rule name = .ok op) : names.Heads (.rnm name) op := by
  unfold reference at h
  split at h
  · rename_i id hid
    cases h
    exact .rnm hid
  · rename_i id hid
    cases h
    exact .rnmUdt hid
  · cases h

theorem terminal_eq_ok (h : names.terminal rule name = .ok op) : names.Heads (.udt name) op := by
  unfold terminal at h
  split at h
  · rename_i id hid
    cases h
    exact .udt hid
  · cases h

theorem EmittedAll.one {e : Expr} {i : Nat} {part : List Opcode} (h : names.Emitted e i part) :
    names.EmittedAll [e] i [i] part := by
  simpa using EmittedAll.cons h .nil

mutual

/-- **What is computed for an expression is the expression's.** -/
theorem emitted_of_opcodes {start : Nat} {part : List Opcode} :
    ∀ {e : Expr}, e.opcodes names rule start = .ok part → names.Emitted e start part
  | .alt items, h => by
    obtain ⟨⟨children, rest⟩, hrest, rfl⟩ := except_map_eq_ok.1 h
    exact .node .alt (emittedAll_of_opcodes hrest)
  | .cat items, h => by
    obtain ⟨⟨children, rest⟩, hrest, rfl⟩ := except_map_eq_ok.1 h
    exact .node .cat (emittedAll_of_opcodes hrest)
  | .rep min max item, h => by
    obtain ⟨rest, hrest, rfl⟩ := except_map_eq_ok.1 h
    exact .node .rep (.one (emitted_of_opcodes hrest))
  | .rnm name, h => by
    obtain ⟨op, hop, rfl⟩ := except_map_eq_ok.1 h
    have hhead := reference_eq_ok hop
    refine .node hhead ?_
    cases hhead <;> exact .nil
  | .udt name, h => by
    obtain ⟨op, hop, rfl⟩ := except_map_eq_ok.1 h
    have hhead := terminal_eq_ok hop
    refine .node hhead ?_
    cases hhead
    exact .nil
  | .trg min max, h => by
    cases h
    exact .node .trg .nil
  | .tbs text, h => by
    cases h
    exact .node .tbs .nil
  | .tls text, h => by
    cases h
    exact .node .tls .nil
  | .and item, h => by
    obtain ⟨rest, hrest, rfl⟩ := except_map_eq_ok.1 h
    exact .node .and (.one (emitted_of_opcodes hrest))
  | .not item, h => by
    obtain ⟨rest, hrest, rfl⟩ := except_map_eq_ok.1 h
    exact .node .not (.one (emitted_of_opcodes hrest))

theorem emittedAll_of_opcodes {start : Nat} {children : List Nat} {part : List Opcode} :
    ∀ {items : List Expr}, Expr.opcodesOfAll names rule start items = .ok (children, part) →
      names.EmittedAll items start children part
  | [], h => by
    cases h
    exact .nil
  | item :: items, h => by
    obtain ⟨first, hfirst, h⟩ := except_bind_eq_ok.1 h
    obtain ⟨⟨others, rest⟩, hrest, h⟩ := except_bind_eq_ok.1 h
    cases h
    exact .cons (emitted_of_opcodes hfirst) (emittedAll_of_opcodes hrest)

end

mutual

/-- **Operators stand in the order of the expressions they are of.** -/
theorem Emitted.heads : ∀ {e : Expr} {i : Nat} {part : List Opcode}, names.Emitted e i part →
    List.Forall₂ names.Heads e.parts part
  | e, _, _, .node head row => by
    rw [Expr.parts_eq]
    exact .cons head row.heads

theorem EmittedAll.heads : ∀ {es : List Expr} {i : Nat} {cs : List Nat} {part : List Opcode}, names.EmittedAll es i cs part →
    List.Forall₂ names.Heads (Expr.partsOfAll es) part
  | _, _, _, _, .nil => .nil
  | _, _, _, _, .cons first others => List.rel_append first.heads others.heads

end

/-! ## Names that nothing declares -/

theorem reference_eq_error {err : GrammarError} (h : names.reference rule name = .error err) :
    err = .undefinedName rule name ∧ ∀ op, ¬ names.Heads (.rnm name) op := by
  unfold reference at h
  split at h <;> cases h
  rename_i hnone
  refine ⟨rfl, fun op hop => ?_⟩
  cases hop with
  | rnm found => simp [hnone] at found
  | rnmUdt found => simp [hnone] at found

theorem terminal_eq_error {err : GrammarError} (h : names.terminal rule name = .error err) :
    err = .undefinedName rule name ∧ ∀ op, ¬ names.Heads (.udt name) op := by
  unfold terminal at h
  split at h <;> cases h
  rename_i hnone
  refine ⟨rfl, fun op hop => ?_⟩
  cases hop with
  | udt found => exact hnone _ found

end Names

mutual

/-- **The emitter fails on names only,** and on one that stands in the expression. -/
theorem opcodes_eq_error {names : Names} {rule : Text} {start : Nat} {err : GrammarError} :
    ∀ {e : Expr}, e.opcodes names rule start = .error err →
      (∃ name, err = .undefinedName rule name) ∧ ∃ x ∈ e.parts, ∀ op, ¬ names.Heads x op
  | .alt items, h =>
    (opcodesOfAll_eq_error (except_map_eq_error.1 h)).imp_right fun ⟨x, hx, hnone⟩ => ⟨x, List.mem_cons_of_mem _ hx, hnone⟩
  | .cat items, h =>
    (opcodesOfAll_eq_error (except_map_eq_error.1 h)).imp_right fun ⟨x, hx, hnone⟩ => ⟨x, List.mem_cons_of_mem _ hx, hnone⟩
  | .rep min max item, h =>
    (opcodes_eq_error (except_map_eq_error.1 h)).imp_right fun ⟨x, hx, hnone⟩ => ⟨x, List.mem_cons_of_mem _ hx, hnone⟩
  | .rnm name, h => by
    obtain ⟨herr, hnone⟩ := Names.reference_eq_error (except_map_eq_error.1 h)
    exact ⟨⟨name, herr⟩, .rnm name, by simp [Expr.parts], hnone⟩
  | .udt name, h => by
    obtain ⟨herr, hnone⟩ := Names.terminal_eq_error (except_map_eq_error.1 h)
    exact ⟨⟨name, herr⟩, .udt name, by simp [Expr.parts], hnone⟩
  | .trg min max, h => by cases h
  | .tbs text, h => by cases h
  | .tls text, h => by cases h
  | .and item, h =>
    (opcodes_eq_error (except_map_eq_error.1 h)).imp_right fun ⟨x, hx, hnone⟩ => ⟨x, List.mem_cons_of_mem _ hx, hnone⟩
  | .not item, h =>
    (opcodes_eq_error (except_map_eq_error.1 h)).imp_right fun ⟨x, hx, hnone⟩ => ⟨x, List.mem_cons_of_mem _ hx, hnone⟩

theorem opcodesOfAll_eq_error {names : Names} {rule : Text} {start : Nat} {err : GrammarError} :
    ∀ {items : List Expr}, Expr.opcodesOfAll names rule start items = .error err →
      (∃ name, err = .undefinedName rule name) ∧ ∃ x ∈ Expr.partsOfAll items, ∀ op, ¬ names.Heads x op
  | [], h => by cases h
  | item :: items, h => by
    rcases except_bind_eq_error.1 h with h | ⟨first, -, h⟩
    · obtain ⟨herr, x, hx, hnone⟩ := opcodes_eq_error h
      exact ⟨herr, x, List.mem_append_left _ hx, hnone⟩
    rcases except_bind_eq_error.1 h with h | ⟨_, -, h⟩
    · obtain ⟨herr, x, hx, hnone⟩ := opcodesOfAll_eq_error h
      exact ⟨herr, x, List.mem_append_right _ hx, hnone⟩
    · cases h

end

end SignIn
