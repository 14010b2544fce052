import SignIn.Grammar.Basic
/-!
# Grammar expressions

Rules are written as expressions, with names for what they refer to, and emitted as opcodes in pre-order: an operator,
then all of its first operand, then all of its second.  The indices of the operands are known when these have been
emitted; until then a stand-in holds the operator's place.
-/
namespace SignIn

/-- **An expression of a rule.** -/
inductive Expr where
  | alt (items : List Expr)
  | cat (items : List Expr)
  | rep (min : Nat) (max : Option Nat) (item : Expr)
  | rnm (name : Text)
  | trg (min max : Nat)
  | tbs (literal : Text)
  | tls (literal : Text)
  | udt (name : Text)
  | and (item : Expr)
  | not (item : Expr)

namespace Expr

/-- At most one. -/
def opt (e : Expr) : Expr := .rep 0 (some 1) e

/-- Any number. -/
def star (e : Expr) : Expr := .rep 0 none e

/-- One or more. -/
def plus (e : Expr) : Expr := .rep 1 none e

/-- One character by its code point. -/
def ch (code : Nat) : Expr := .trg code code

end Expr

/-- The names an expression may refer to. -/
structure Names where
  rules : List Text
  udts : List Text

/-- **A reference by name** is to a rule or to a terminal. -/
def Names.reference (names : Names) (rule name : Text) : Except GrammarError Opcode :=
  match resolveName names.rules names.udts name with
  | some (.rule id) => .ok (.rnm id)
  | some (.udt id) => .ok (.udt id)
  | none => .error (.undefinedName rule name)

/-- **A reference to a terminal** is not answered by a rule. -/
def Names.terminal (names : Names) (rule name : Text) : Except GrammarError Opcode :=
  match resolveName names.rules names.udts name with
  | some (.udt id) => .ok (.udt id)
  | _ => .error (.undefinedName rule name)

/-- **What emits opcodes** puts them behind those that are there, or fails. -/
abbrev Emitter := StateT (Array Opcode) (Except GrammarError)

/-- **An operator stands before its operands,** which are emitted first: its place is held until then. -/
def Emitter.placed (operator : Emitter Opcode) : Emitter Nat := do
  let index := (← get).size
  modify fun ops => ops.push (.alt [])
  let op ← operator
  modify fun ops => ops.setIfInBounds index op
  return index

mutual

/-- **An expression is emitted,** and its index is told. -/
def Expr.emit (names : Names) (rule : Text) : Expr → Emitter Nat
  | .alt items => Emitter.placed do return .alt (← Expr.emitAll names rule items)
  | .cat items => Emitter.placed do return .cat (← Expr.emitAll names rule items)
  | .rep min max item => Emitter.placed do return .rep min max (← item.emit names rule)
  | .rnm name => Emitter.placed (names.reference rule name)
  | .udt name => Emitter.placed (names.terminal rule name)
  | .trg min max => Emitter.placed (return .trg min max)
  | .tbs literal => Emitter.placed (return .tbs literal)
  | .tls literal => Emitter.placed (return .tls literal)
  | .and item => Emitter.placed do return .and (← item.emit names rule)
  | .not item => Emitter.placed do return .not (← item.emit names rule)

/-- Expressions are emitted one after the other. -/
def Expr.emitAll (names : Names) (rule : Text) : List Expr → Emitter (List Nat)
  | [] => return []
  | item :: items => do
    let index ← item.emit names rule
    let indices ← Expr.emitAll names rule items
    return index :: indices

end

/-- The opcodes of a rule. -/
def Expr.flatten (names : Names) (rule : Text) (e : Expr) : Except GrammarError (List Opcode) := do
  let (_, ops) ← (e.emit names rule).run #[]
  return ops.toList

/-- **A grammar from expressions.**  The names are judged first, then each rule is flattened in order,
and the tables that result are judged like any others. -/
def Grammar.ofExprs (rules : List (Text × Expr)) (udts : List (Text × Bool)) :
    Except GrammarError Grammar :=
  let names : Names := ⟨rules.map (·.1), udts.map (·.1)⟩
  match firstRepeated [] (names.rules ++ names.udts) with
  | some name => .error (.duplicateName name)
  | none => do
    let tables ← rules.mapM fun r => do return (r.1, ← r.2.flatten names r.1)
    Grammar.ofTables tables udts

end SignIn
