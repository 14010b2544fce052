import SignIn.Text.Basic
/-!
# Opcodes

A rule is stored as the list of the operators of its expression, root first; an operator names its
operands by their indices in that list.  There are ten operators: three that combine others
(ordered choice, sequence, repetition), two references by name (to a rule, and to a terminal the
user defines), three terminals, and two lookaheads.
-/
namespace SignIn

/-- The place of a rule in its grammar. -/
structure RuleId where
  index : Nat
  deriving DecidableEq

/-- The place of a user-defined terminal in its grammar. -/
structure UdtId where
  index : Nat
  deriving DecidableEq

/-- **What a name of a grammar stands for.** -/
inductive Symbol where
  | rule (id : RuleId)
  | udt (id : UdtId)
  deriving DecidableEq

/-- A symbol as it is written: `R` or `U` and its place. -/
def Symbol.label : Symbol → Text
  | .rule id => "R" ++ decimal id.index
  | .udt id => "U" ++ decimal id.index

/-- **The ten operators.** -/
inductive Operator where
  | alt | cat | rep | rnm | trg | tbs | tls | udt | and | not
  deriving DecidableEq

/-- The operators in the order in which they are listed. -/
def Operator.all : List Operator := [.alt, .cat, .rep, .rnm, .trg, .tbs, .tls, .udt, .and, .not]

/-- The place of an operator in that order. -/
def Operator.slot : Operator → Fin 10
  | .alt => 0 | .cat => 1 | .rep => 2 | .rnm => 3 | .trg => 4
  | .tbs => 5 | .tls => 6 | .udt => 7 | .and => 8 | .not => 9

/-- The three letters an operator is known by. -/
def Operator.mnemonic : Operator → Text
  | .alt => "ALT" | .cat => "CAT" | .rep => "REP" | .rnm => "RNM" | .trg => "TRG"
  | .tbs => "TBS" | .tls => "TLS" | .udt => "UDT" | .and => "AND" | .not => "NOT"

/-- **One operator with its operands.**  Operands that are operators are indices into the list that
the opcode stands in. -/
inductive Opcode where
  /-- ordered choice: the first child that does not fail decides -/
  | alt (children : List Nat)
  /-- one child after the other -/
  | cat (children : List Nat)
  /-- a child as often as it matches, within bounds; without `max` there is no upper bound -/
  | rep (min : Nat) (max : Option Nat) (child : Nat)
  /-- a rule by its place -/
  | rnm (rule : RuleId)
  /-- one character with a code point in the range -/
  | trg (min max : Nat)
  /-- a literal as written, never empty -/
  | tbs (literal : Text)
  /-- a literal in lower case, matched in any ASCII case; may be empty -/
  | tls (literal : Text)
  /-- a terminal that a callback decides -/
  | udt (id : UdtId)
  /-- lookahead: the child has to match -/
  | and (child : Nat)
  /-- lookahead: the child has to fail -/
  | not (child : Nat)
  deriving DecidableEq

/-- The operator of an opcode. -/
def Opcode.operator : Opcode → Operator
  | .alt .. => .alt | .cat .. => .cat | .rep .. => .rep | .rnm .. => .rnm | .trg .. => .trg
  | .tbs .. => .tbs | .tls .. => .tls | .udt .. => .udt | .and .. => .and | .not .. => .not

/-- The operands that are operators, in the order in which they are tried. -/
def Opcode.children : Opcode → List Nat
  | .alt cs | .cat cs => cs
  | .rep _ _ c | .and c | .not c => [c]
  | _ => []

/-- **A terminal reads the input itself.** -/
def Opcode.isTerminal : Opcode → Bool
  | .trg .. | .tbs .. | .tls .. | .udt .. => true
  | _ => false

/-- The symbol an opcode refers to. -/
def Opcode.symbol? : Opcode → Option Symbol
  | .rnm id => some (.rule id)
  | .udt id => some (.udt id)
  | _ => none

/-- **A literal that is matched in any case is kept in lower case,** so that matching folds the input
alone. -/
def Opcode.lowered : Opcode → Opcode
  | .tls literal => .tls (foldCase literal)
  | op => op

end SignIn
