import SignIn.Grammar.Basic
import SignIn.Match.Counter
import SignIn.Match.Error
import SignIn.Match.Phrase
/-!
# Matchers: a grammar with callbacks

A callback is any function of the phrase so far, the input, the offset and an accumulator of the
caller's.  A rule's callback is asked twice, before the body (where it may decide and so skip it) and
after it (where it may override the result); a terminal's callback is asked once and has to decide.

Callbacks are bound by name, to the rule or terminal that bears it; binding a name again replaces the
callback.
-/
namespace SignIn

/-- **A callback** rewrites the phrase and the accumulator. -/
abbrev Callback (D : Type) := Phrase → Array Char → Nat → D → Phrase × D

/-- **A grammar with the callbacks bound to its rules and terminals,** and what the rounds of its repetitions are counted
in. -/
structure Matcher (D : Type) where
  grammar : Grammar
  onRule : Array (Option (Callback D))
  onUdt : Array (Option (Callback D))
  counter : Counter := .exact

namespace Matcher

/-- A grammar with nothing bound. -/
def bare {D : Type} (g : Grammar) (counter : Counter := .exact) : Matcher D :=
  ⟨g, Array.replicate g.rules.size none, Array.replicate g.udts.size none, counter⟩

/-- The callback of a rule. -/
def ruleCallback? {D : Type} (m : Matcher D) (id : RuleId) : Option (Callback D) :=
  (m.onRule[id.index]?).join

/-- The callback of a terminal. -/
def udtCallback? {D : Type} (m : Matcher D) (id : UdtId) : Option (Callback D) :=
  (m.onUdt[id.index]?).join

/-- **A name that the grammar declares can be bound.** -/
def bind {D : Type} (m : Matcher D) (name : Text) (f : Callback D) :
    Except MatchError (Matcher D) :=
  match m.grammar.lookup name with
  | some (.rule id) => .ok { m with onRule := m.onRule.setIfInBounds id.index (some f) }
  | some (.udt id) => .ok { m with onUdt := m.onUdt.setIfInBounds id.index (some f) }
  | none => .error (.unknownName name)

/-- Names bound in order; the first that is not declared is the error. -/
def bindAll {D : Type} (m : Matcher D) : List (Text × Callback D) → Except MatchError (Matcher D)
  | [] => .ok m
  | (name, f) :: rest =>
    match m.bind name f with
    | .ok m' => m'.bindAll rest
    | .error e => .error e

/-- The name of the first terminal without a callback. -/
def unboundUdt? {D : Type} (m : Matcher D) : Option Text :=
  (m.grammar.udts.toList.zipIdx.find? fun u => (m.udtCallback? ⟨u.2⟩).isNone).map (·.1.name)

end Matcher
end SignIn
