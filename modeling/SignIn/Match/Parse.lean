import SignIn.Match.Engine
/-!
# Matching an input from a start rule

A match begins with the start rule at offset 0 and counts as a success when the rule read the whole
input.  Before anything runs, the start rule has to exist and every terminal has to have a callback;
a match refused for that reason asks no callback and tells no watcher anything.

**The depth.**  Where no rule can reach itself again at the offset it started from, the operators that
are open at one offset are all different, so there are never more of them open than the grammar has
opcodes, times the offsets there are.  `Matcher.depthFor` is that number.
-/
namespace SignIn

/-- **What a finished match reports.** -/
structure MatchReport where
  /-- the start rule succeeded and read the whole input -/
  success : Bool
  state : MatchState
  /-- the length of the input -/
  length : Nat
  /-- how much the start rule read -/
  matched : Nat
  /-- the furthest offset that an operator outside lookahead reached -/
  reach : Nat
  /-- the greatest number of operators open at once -/
  deepest : Nat
  /-- how many operators were run -/
  hits : Nat
  deriving DecidableEq

/-- **How a match comes out,** with what it left behind. -/
structure Parsed (D σ : Type) where
  result : Except MatchError MatchReport
  data : D
  seen : σ

namespace Matcher

variable {D σ : Type}

/-- **The depth that a match of an input may need.** -/
def depthFor (m : Matcher D) (input : Array Char) : Nat :=
  (input.size + 1) * (m.grammar.opcodeCount + 1) + 2

/-- The run before its first operator. -/
def firstRun (watch : Watcher σ) (input : Array Char) (data : D) (seen : σ) : Run D σ :=
  { data := data, seen := watch seen (.start input)
    lookahead := 0, depth := 0, deepest := 0, hits := 0, reach := 0 }

/-- The report on a start rule's phrase. -/
def report (input : Array Char) (p : Phrase) (r : Run D σ) : MatchReport :=
  { success := p.isSuccess && decide (p.length = input.size)
    state := p.state, length := input.size, matched := p.length
    reach := r.reach, deepest := r.deepest, hits := r.hits }

/-- **A match from a rule of the grammar,** to a depth. -/
def parseFrom (m : Matcher D) (watch : Watcher σ) (depth : Nat) (start : RuleId)
    (input : Array Char) (data : D) (seen : σ) : Parsed D σ :=
  let s : Setting D σ := ⟨m, watch, input⟩
  match Engine.execute s depth #[.rnm start] 0 0 (firstRun watch input data seen) with
  | .ended p r => ⟨.ok (report input p r), r.data, r.seen⟩
  | .broken e r => ⟨.error e, r.data, r.seen⟩
  | .stuck => ⟨.error .outOfTable, data, seen⟩
  | .starved => ⟨.error .tooDeep, data, seen⟩

/-- **A watched match from the rule of a name.** -/
def parseWith (m : Matcher D) (watch : Watcher σ) (start : Text) (input : Array Char) (data : D)
    (seen : σ) : Parsed D σ :=
  match m.grammar.ruleId? start with
  | none => ⟨.error (.unknownStartRule start), data, seen⟩
  | some id =>
    match m.unboundUdt? with
    | some name => ⟨.error (.unboundUdt name), data, seen⟩
    | none => m.parseFrom watch (m.depthFor input) id input data seen

/-- **A match that nobody watches.** -/
def parse (m : Matcher D) (start : Text) (input : Array Char) (data : D) : Parsed D Unit :=
  m.parseWith Watcher.silent start input data ()

end Matcher
end SignIn
