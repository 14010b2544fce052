import SignIn.Match.Event
import SignIn.Match.Matcher
/-!
# The matching engine

`execute` runs one operator of a rule at an offset.  There is one function for each of the ten
operators; those that run others take the evaluator of their operands as an argument, so each can be
reasoned about on its own, and `execute` ties the knot with a bound on the depth of the recursion.

**Outcomes.**  A run of an operator ends with a phrase, or is broken off by a callback that breaks its
contract.  Two further outcomes are no answers: `stuck`, where an index lies outside its table or an
offset outside the input, which does not happen for the grammars that `Grammar.ofTables` accepts, and
`starved`, where the bound on the depth was too small.

**Order.**  Everything an operator does to the run, in the order in which it does it, is visible in
the accumulator, the watcher's state and the counters: nothing is undone when an alternative fails.
-/
namespace SignIn

/-- **What a match carries along:** the caller's accumulator, the watcher's state, and counters. -/
structure Run (D σ : Type) where
  data : D
  seen : σ
  /-- how many lookaheads are open; nobody is told of operators below one -/
  lookahead : Nat
  /-- how many operators are open -/
  depth : Nat
  /-- the greatest depth so far -/
  deepest : Nat
  /-- how many operators were entered -/
  hits : Nat
  /-- the furthest offset reached by an operator outside lookahead -/
  reach : Nat

/-- **How a run comes out,** with what it left behind. -/
inductive Outcome (ρ : Type) where
  | ended (phrase : Phrase) (run : ρ)
  | broken (error : MatchError) (run : ρ)
  | stuck
  | starved

/-- **What follows a phrase;** the other outcomes end the match. -/
@[inline] def Outcome.andThen {ρ : Type} (o : Outcome ρ) (k : Phrase → ρ → Outcome ρ) : Outcome ρ :=
  match o with
  | .ended p r => k p r
  | .broken e r => .broken e r
  | .stuck => .stuck
  | .starved => .starved

/-- **What stays the same throughout a match.** -/
structure Setting (D σ : Type) where
  matcher : Matcher D
  watch : Watcher σ
  input : Array Char

/-- Runs the operator at an index of a rule's opcodes, at an offset. -/
abbrev Evaluator (D σ : Type) := Array Opcode → Nat → Nat → Run D σ → Outcome (Run D σ)

namespace Engine

variable {D σ ι ρ : Type}

/-! ## The operators that combine others

They do not care what stands for a child, or what a run carries along. -/

/-- **Ordered choice:** the first child that does not fail decides. -/
def choice (eval : ι → ρ → Outcome ρ) : List ι → ρ → Outcome ρ
  | [], r => .ended .fail r
  | c :: cs, r =>
    (eval c r).andThen fun p r => if p.state = .noMatch then choice eval cs r else .ended p r

/-- **Sequence:** each child starts where the one before it ended, and the first that fails, fails
the whole.  `eval` runs a child at a distance from where the sequence starts. -/
def sequence (eval : ι → Nat → ρ → Outcome ρ) : List ι → Nat → ρ → Outcome ρ
  | [], length, r => .ended (.ofLength length) r
  | c :: cs, length, r =>
    (eval c length r).andThen fun p r =>
      if p.state = .noMatch then .ended .fail r else sequence eval cs (length + p.length) r

/-- A repetition that stopped: enough matches are a match of all they read. -/
def repeated (min count length : Nat) : Phrase := if min ≤ count then .ofLength length else .fail

/-- **Repetition:** the child is run again while it matches, the upper bound is not reached and
characters are left.  An empty match ends it in success, whatever the lower bound.

What is compared with the bounds is what the counter shows.  `eval` runs the child at a distance from the
start, `available` is how many characters there are, and the budget bounds the number of rounds: every
round reads something, so `available` rounds are enough. -/
def repetition (counter : Counter) (eval : Nat → ρ → Outcome ρ) (min : Nat) (max : Option Nat)
    (available : Nat) : Nat → Nat → Nat → ρ → Outcome ρ
  | 0, count, length, r => .ended (repeated min count length) r
  | budget + 1, count, length, r =>
    if available ≤ length then .ended (repeated min count length) r
    else (eval length r).andThen fun p r =>
      match p.state with
      | .matched =>
        let count := counter.next count
        if max = some count then .ended (repeated min count (length + p.length)) r
        else repetition counter eval min max available budget count (length + p.length) r
      | .emptyMatch => .ended (.ofLength length) r
      | .active | .noMatch => .ended (repeated min count length) r

/-- **Lookahead** reads nothing: it succeeds when its child does, or when its child does not, and
nobody is told of what happens below it. -/
def lookahead (eval : Run D σ → Outcome (Run D σ)) (positive : Bool) (r : Run D σ) :
    Outcome (Run D σ) :=
  (eval { r with lookahead := r.lookahead + 1 }).andThen fun p r =>
    .ended (if p.isSuccess = positive then .empty else .fail)
      { r with lookahead := r.lookahead - 1 }

/-! ## The operators that read the input -/

/-- **A range** reads one character of it. -/
def range (input : Array Char) (min max offset : Nat) : Phrase :=
  match input[offset]? with
  | some c => if min ≤ c.toNat ∧ c.toNat ≤ max then .ofLength 1 else .fail
  | none => .fail

/-- Whether a literal stands at an offset, each character of the input first being folded. -/
def standsAt (fold : Char → Char) (input : Array Char) : Nat → Text → Bool
  | _, [] => true
  | offset, c :: cs =>
    match input[offset]? with
    | some d => fold d == c && standsAt fold input (offset + 1) cs
    | none => false

/-- **A literal as written** reads itself. -/
def literal (input : Array Char) (text : Text) (offset : Nat) : Phrase :=
  if standsAt id input offset text then .ofLength text.length else .fail

/-- **A literal in any case** reads a text that is it up to ASCII case. -/
def foldedLiteral (input : Array Char) (text : Text) (offset : Nat) : Phrase :=
  if standsAt Char.toLower input offset text then .ofLength text.length else .fail

/-! ## Callbacks -/

/-- **What a callback wrote is put into normal form, or refused.**  The length is judged first,
whatever the state; only on the way down may the phrase stay undecided. -/
def settle (name : Text) (remaining : Nat) (descending : Bool) (p : Phrase) :
    Except MatchError Phrase :=
  if remaining < p.length then .error (.phraseOverrun name p.length remaining)
  else match p.state with
    | .active => if descending then .ok p else .error (.activeReturn name)
    | .matched => .ok (.ofLength p.length)
    | .emptyMatch => .ok .empty
    | .noMatch => .ok .fail

/-- **A callback is asked,** its accumulator kept, and its phrase settled. -/
def ask (s : Setting D σ) (f : Callback D) (name : Text) (descending : Bool) (p : Phrase)
    (offset : Nat) (r : Run D σ) : Outcome (Run D σ) :=
  if s.input.size < offset then .stuck
  else
    let answer := f p s.input offset r.data
    let r := { r with data := answer.2 }
    match settle name (s.input.size - offset) descending answer.1 with
    | .ok p => .ended p r
    | .error e => .broken e r

/-- **A rule** runs its body, between the two questions to its callback if it has one. -/
def callRule (s : Setting D σ) (eval : Evaluator D σ) (id : RuleId) (offset : Nat) (r : Run D σ) :
    Outcome (Run D σ) :=
  match s.matcher.grammar.rules[id.index]? with
  | none => .stuck
  | some rule =>
    match s.matcher.ruleCallback? id with
    | none => eval rule.opcodes 0 offset r
    | some f =>
      (ask s f rule.name true .undecided offset r).andThen fun p r =>
        if p.state = .active then
          (eval rule.opcodes 0 offset r).andThen fun p r => ask s f rule.name false p offset r
        else .ended p r

/-- **A terminal** is what its callback says, the empty match only if the terminal allows it. -/
def callUdt (s : Setting D σ) (id : UdtId) (offset : Nat) (r : Run D σ) : Outcome (Run D σ) :=
  match s.matcher.grammar.udts[id.index]? with
  | none => .stuck
  | some udt =>
    match s.matcher.udtCallback? id with
    | none => .broken (.unboundUdt udt.name) r
    | some f =>
      (ask s f udt.name false .undecided offset r).andThen fun p r =>
        if p.state = .emptyMatch && !udt.acceptsEmpty then .broken (.emptyUdt udt.name) r
        else .ended p r

/-! ## One operator, and all of them -/

/-- **What an opcode does at an offset,** given the evaluator of its operands. -/
def apply (s : Setting D σ) (eval : Evaluator D σ) (ops : Array Opcode) (op : Opcode)
    (offset : Nat) (r : Run D σ) : Outcome (Run D σ) :=
  match op with
  | .alt children => choice (fun c => eval ops c offset) children r
  | .cat children => sequence (fun c length => eval ops c (offset + length)) children 0 r
  | .rep min max child =>
    if max = some 0 then .ended .empty r
    else
      let available := s.input.size - offset
      repetition s.matcher.counter (fun length => eval ops child (offset + length)) min max available
        available 0 0 r
  | .rnm id => callRule s eval id offset r
  | .trg min max => .ended (range s.input min max offset) r
  | .tbs text => .ended (literal s.input text offset) r
  | .tls text => .ended (foldedLiteral s.input text offset) r
  | .udt id => callUdt s id offset r
  | .and child => lookahead (eval ops child offset) true r
  | .not child => lookahead (eval ops child offset) false r

/-- The run after an operator is entered: it is counted, and told of unless a lookahead is open. -/
def enter (s : Setting D σ) (op : Opcode) (offset : Nat) (r : Run D σ) : Run D σ :=
  { r with
    seen := if r.lookahead = 0 then s.watch r.seen (.down op offset) else r.seen
    depth := r.depth + 1
    deepest := Nat.max r.deepest (r.depth + 1)
    hits := r.hits + 1 }

/-- The run after an operator is left with a phrase. -/
def leave (s : Setting D σ) (op : Opcode) (offset : Nat) (p : Phrase) (observed : Bool)
    (r : Run D σ) : Run D σ :=
  { r with
    seen := if observed then s.watch r.seen (.up op p offset) else r.seen
    depth := r.depth - 1
    reach := if observed then Nat.max r.reach (offset + p.length) else r.reach }

/-- **One operator:** it is entered, does its work, and is left with its phrase. -/
def step (s : Setting D σ) (eval : Evaluator D σ) : Evaluator D σ :=
  fun ops i offset r =>
    match ops[i]? with
    | none => .stuck
    | some op =>
      let observed := decide (r.lookahead = 0)
      (apply s eval ops op offset (enter s op offset r)).andThen fun p r =>
        .ended p (leave s op offset p observed r)

/-- **An operator with all it calls,** to a depth. -/
def execute (s : Setting D σ) : Nat → Evaluator D σ
  | 0 => fun _ _ _ _ => .starved
  | depth + 1 => step s (execute s depth)

end Engine
end SignIn
