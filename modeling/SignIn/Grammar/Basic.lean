import SignIn.Grammar.Error
import SignIn.Grammar.Opcode
/-!
# Grammars

A grammar is a table of rules and a table of user-defined terminals, whose names are distinct up to
ASCII case.  `Grammar.ofTables` is the only judge of raw tables.  It looks at the names, then at the
rules in order, in a rule at the opcodes in order, and in an opcode at its children before its other
operands; the first fault it meets is the one it reports.

What it accepts can be run: every index is in range, every child stands later in its rule than its
parent, so that a rule is a finite tree, and no range is empty.
-/
namespace SignIn

/-- **A rule is a name and its opcodes,** the root first. -/
structure Rule where
  name : Text
  opcodes : Array Opcode

/-- **A user-defined terminal** is matched by a callback. -/
structure Udt where
  name : Text
  /-- whether the callback may accept without reading anything -/
  acceptsEmpty : Bool

/-- **A grammar is its rules and its terminals.** -/
structure Grammar where
  rules : Array Rule
  udts : Array Udt

/-- Whether two names are one, ASCII case aside. -/
def sameName (a b : Text) : Bool := foldCase a == foldCase b

/-- **A name stands for the rule that bears it, else for the terminal that does.** -/
def resolveName (ruleNames udtNames : List Text) (name : Text) : Option Symbol :=
  match ruleNames.findIdx? (sameName name) with
  | some i => some (.rule ⟨i⟩)
  | none => (udtNames.findIdx? (sameName name)).map fun i => .udt ⟨i⟩

/-- The first name that repeats an earlier one, as it is written. -/
def firstRepeated (seen : List Text) : List Text → Option Text
  | [] => none
  | n :: ns => if foldCase n ∈ seen then some n else firstRepeated (foldCase n :: seen) ns

/-- The first child that does not stand after index `i` in a rule of `length` opcodes. -/
def Opcode.badChild? (i length : Nat) (op : Opcode) : Option Nat :=
  op.children.find? fun c => decide (c ≤ i) || decide (length ≤ c)

/-- What is wrong with the operands that are not children. -/
def Opcode.badOperand? (rule : Text) (ruleCount udtCount i : Nat) : Opcode → Option GrammarError
  | .rnm id => if ruleCount ≤ id.index then some (.ruleOutOfRange rule i id.index) else none
  | .udt id => if udtCount ≤ id.index then some (.udtOutOfRange rule i id.index) else none
  | .tbs literal => if literal.isEmpty then some (.emptyLiteral rule i) else none
  | .trg min max => if max < min then some (.invertedRange rule i min max) else none
  | .rep min (some max) _ => if max < min then some (.invertedRange rule i min max) else none
  | _ => none

/-- **The fault of one opcode:** its first bad child, else its bad operand. -/
def Opcode.fault? (rule : Text) (ruleCount udtCount length i : Nat) (op : Opcode) :
    Option GrammarError :=
  match op.badChild? i length with
  | some c => some (.badChild rule i c)
  | none => op.badOperand? rule ruleCount udtCount i

/-- **The fault of one rule** is that of its first faulty opcode. -/
def ruleFault? (ruleCount udtCount : Nat) (rule : Text × List Opcode) : Option GrammarError :=
  if rule.2.isEmpty then some (.emptyRule rule.1)
  else rule.2.zipIdx.findSome? fun p => p.1.fault? rule.1 ruleCount udtCount rule.2.length p.2

/-- A rule as it is kept. -/
def Rule.ofTable (rule : Text × List Opcode) : Rule :=
  ⟨rule.1, (rule.2.map Opcode.lowered).toArray⟩

/-- **The first fault of raw tables:** a repeated name, else the fault of the first faulty rule. -/
def tablesFault? (rules : List (Text × List Opcode)) (udts : List (Text × Bool)) :
    Option GrammarError :=
  match firstRepeated [] (rules.map (·.1) ++ udts.map (·.1)) with
  | some name => some (.duplicateName name)
  | none => rules.findSome? (ruleFault? rules.length udts.length)

/-- **Raw tables are a grammar unless something is wrong with them.** -/
def Grammar.ofTables (rules : List (Text × List Opcode)) (udts : List (Text × Bool)) :
    Except GrammarError Grammar :=
  match tablesFault? rules udts with
  | some e => .error e
  | none => .ok ⟨(rules.map Rule.ofTable).toArray, (udts.map fun u => ⟨u.1, u.2⟩).toArray⟩

namespace Grammar

/-- The grammar without rules. -/
def empty : Grammar := ⟨#[], #[]⟩

/-- **What a name stands for,** ASCII case aside. -/
def lookup (g : Grammar) (name : Text) : Option Symbol :=
  resolveName (g.rules.toList.map Rule.name) (g.udts.toList.map Udt.name) name

/-- The rule of a name. -/
def ruleId? (g : Grammar) (name : Text) : Option RuleId :=
  match g.lookup name with
  | some (.rule id) => some id
  | _ => none

/-- The terminal of a name. -/
def udtId? (g : Grammar) (name : Text) : Option UdtId :=
  match g.lookup name with
  | some (.udt id) => some id
  | _ => none

/-- The name of a rule; no rule has the empty name of a place outside the table. -/
def ruleName (g : Grammar) (id : RuleId) : Text := (g.rules[id.index]?.map Rule.name).getD []

/-- The name of a terminal. -/
def udtName (g : Grammar) (id : UdtId) : Text := (g.udts[id.index]?.map Udt.name).getD []

/-- The name of a symbol. -/
def symbolName (g : Grammar) : Symbol → Text
  | .rule id => g.ruleName id
  | .udt id => g.udtName id

/-- How many opcodes the rules have together. -/
def opcodeCount (g : Grammar) : Nat := (g.rules.toList.map fun r => r.opcodes.size).foldr (· + ·) 0

end Grammar
end SignIn
