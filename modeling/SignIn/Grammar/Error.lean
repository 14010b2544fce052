import SignIn.Text.Basic
/-!
# What makes a grammar invalid

One constructor for each thing that is wrong, with the rule and the place it is wrong at, and one
sentence for each.
-/
namespace SignIn

/-- **Why tables or expressions are no grammar.** -/
inductive GrammarError where
  /-- two names are equal up to ASCII case; the later one, as written -/
  | duplicateName (name : Text)
  /-- a rule without opcodes -/
  | emptyRule (rule : Text)
  /-- a reference to a name that nothing declares, or to a rule where a terminal is asked for -/
  | undefinedName (rule name : Text)
  /-- a child that does not stand later in the same rule -/
  | badChild (rule : Text) (op child : Nat)
  | ruleOutOfRange (rule : Text) (op target : Nat)
  | udtOutOfRange (rule : Text) (op target : Nat)
  /-- an exact literal without characters -/
  | emptyLiteral (rule : Text) (op : Nat)
  /-- a character range or a bounded repetition whose minimum is the greater one -/
  | invertedRange (rule : Text) (op min max : Nat)
  deriving DecidableEq

/-- The words that name an opcode of a rule. -/
def opcodePlace (rule : Text) (op : Nat) : Text := "rule '" ++ rule ++ "' opcode " ++ decimal op

/-- The sentence that tells of the error. -/
def GrammarError.message : GrammarError → Text
  | .duplicateName name =>
    "duplicate rule or UDT name '" ++ name ++ "' (names are case-insensitive)"
  | .emptyRule rule => "rule '" ++ rule ++ "' has no opcodes"
  | .undefinedName rule name => "rule '" ++ rule ++ "': reference to undefined name '" ++ name ++ "'"
  | .badChild rule op child =>
    opcodePlace rule op ++ ": child index " ++ decimal child ++ " must point forward within the rule"
  | .ruleOutOfRange rule op target =>
    opcodePlace rule op ++ ": rule index " ++ decimal target ++ " out of range"
  | .udtOutOfRange rule op target =>
    opcodePlace rule op ++ ": UDT index " ++ decimal target ++ " out of range"
  | .emptyLiteral rule op => opcodePlace rule op ++ ": TBS literal must not be empty"
  | .invertedRange rule op min max =>
    opcodePlace rule op ++ ": range minimum " ++ decimal min ++ " exceeds maximum " ++ decimal max

end SignIn
