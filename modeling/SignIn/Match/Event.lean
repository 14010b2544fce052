import SignIn.Grammar.Opcode
import SignIn.Match.Phrase
/-!
# Events, and those who watch them

A match tells what it does as a sequence of events: its start, and for every operator outside
lookahead its entry and its result.  A *watcher* is a step function on a state of its own.  The
matcher hands it events and never reads its state, so whoever watches, the match is the same; and
since a watcher sees nothing but events, what it becomes is a fold over them.
-/
namespace SignIn

/-- **What a match tells its watchers.** -/
inductive Event where
  /-- a match of this input begins -/
  | start (input : Array Char)
  /-- an operator is entered -/
  | down (op : Opcode) (offset : Nat)
  /-- an operator is left with this phrase -/
  | up (op : Opcode) (phrase : Phrase) (offset : Nat)

/-- **A watcher is a step on its state.** -/
abbrev Watcher (σ : Type) := σ → Event → σ

namespace Watcher

/-- Nobody watches. -/
def silent : Watcher Unit := fun _ _ => ()

/-- The events themselves, the latest first. -/
def record : Watcher (List Event) := fun seen e => e :: seen

/-- **Two watchers side by side.** -/
def both {σ τ : Type} (f : Watcher σ) (g : Watcher τ) : Watcher (σ × τ) :=
  fun s e => (f s.1 e, g s.2 e)

end Watcher
end SignIn
