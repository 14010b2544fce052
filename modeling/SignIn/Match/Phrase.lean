import SignIn.Text.Basic
/-!
# Phrases

What an operator makes of the input at an offset is a *phrase*: a state and the number of characters
read.  Of the four states `active` exists only while a rule or a terminal is being decided; it is what
a callback sees on the way down, and leaving it asks the matcher to run the rule's body.

A *settled* phrase is in normal form: not active, and of positive length exactly when its state is
`matched`.  Every phrase an operator returns is settled; what a callback writes is settled, or
refused, by `Phrase.settle`.
-/
namespace SignIn

/-- **The state of a phrase.** -/
inductive MatchState where
  | active
  | matched
  | emptyMatch
  | noMatch
  deriving DecidableEq

/-- The word a state is reported by. -/
def MatchState.word : MatchState → Text
  | .active => "active"
  | .matched => "matched"
  | .emptyMatch => "empty_match"
  | .noMatch => "no_match"

/-- **A state is a success** when something, or the empty text, matched. -/
def MatchState.isSuccess : MatchState → Bool
  | .matched | .emptyMatch => true
  | .active | .noMatch => false

/-- **A state and the number of characters it covers.** -/
structure Phrase where
  state : MatchState
  length : Nat
  deriving DecidableEq

namespace Phrase

/-- What a callback sees before anything is decided. -/
def undecided : Phrase := ⟨.active, 0⟩

/-- The match of the empty text. -/
def empty : Phrase := ⟨.emptyMatch, 0⟩

/-- The failure. -/
def fail : Phrase := ⟨.noMatch, 0⟩

/-- **The match of a number of characters;** of none, the empty match. -/
def ofLength (n : Nat) : Phrase := if n = 0 then empty else ⟨.matched, n⟩

/-- Whether the phrase is a success. -/
def isSuccess (p : Phrase) : Bool := p.state.isSuccess

/-- **The normal form:** decided, and of positive length exactly when something matched. -/
def Settled (p : Phrase) : Prop := p.state ≠ .active ∧ (0 < p.length ↔ p.state = .matched)

instance (p : Phrase) : Decidable p.Settled := by unfold Settled; infer_instance

theorem settled_empty : empty.Settled := by decide

theorem settled_fail : fail.Settled := by decide

theorem settled_ofLength (n : Nat) : (ofLength n).Settled := by
  unfold ofLength Settled
  by_cases h : n = 0 <;> simp [h, empty]
  omega

@[simp] theorem length_ofLength (n : Nat) : (ofLength n).length = n := by
  unfold ofLength
  by_cases h : n = 0 <;> simp [h, empty]

end Phrase

/-- The `length` characters of an input from an offset on. -/
def phraseText (input : Array Char) (offset length : Nat) : Text :=
  (input.extract offset (offset + length)).toList

end SignIn
