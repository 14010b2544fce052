import SignIn.Match.Parse
/-!
# Counting no further than a counter holds

Every round of a repetition reads something, so there are no more rounds than characters.  Where a counter holds the
length of the input, the bounds are compared with the true number of rounds, and a match is the match of the matcher that
counts exactly (`Matcher.parseWith_exactly`).
-/
namespace SignIn

/-- The same matcher, its rounds counted exactly. -/
def Matcher.exactly {D : Type} (m : Matcher D) : Matcher D := { m with counter := .exact }

theorem Matcher.exactly_bare {D : Type} (g : Grammar) (counter : Counter) :
    (bare g counter : Matcher D).exactly = bare g := rfl

/-- Callbacks are bound whatever is counted in. -/
theorem Matcher.bindAll_exactly {D : Type} : ∀ {actions : List (Text × Callback D)} {m m' : Matcher D},
    m.bindAll actions = .ok m' → m.exactly.bindAll actions = .ok m'.exactly
  | [], m, m', h => congrArg (Except.map Matcher.exactly) h
  | (name, f) :: actions, m, m', h => by
    unfold bindAll bind at h ⊢
    rw [show m.exactly.grammar = m.grammar from rfl]
    cases hname : m.grammar.lookup name with
    | none =>
      rw [hname] at h
      cases h
    | some symbol =>
      rw [hname] at h
      cases symbol with
      | rule id => exact bindAll_exactly h
      | udt id => exact bindAll_exactly h

namespace Engine

variable {D σ ρ : Type}

/-- **A counter that holds all rounds there may be** is as good as an exact one.  The budget that is left bounds the rounds
to come. -/
theorem repetition_exactly {counter : Counter} (eval : Nat → ρ → Outcome ρ) (min : Nat) (max : Option Nat)
    (available : Nat) : ∀ {budget count : Nat}, counter.Holds (count + budget) → ∀ (length : Nat) (r : ρ),
      repetition counter eval min max available budget count length r =
        repetition .exact eval min max available budget count length r
  | 0, _, _, _, _ => rfl
  | budget + 1, count, h, length, r => by
    have hnext : counter.next count = count + 1 := (h.mono (by omega)).shows_eq
    have ih : ∀ length r, repetition counter eval min max available budget (count + 1) length r =
        repetition .exact eval min max available budget (count + 1) length r :=
      repetition_exactly eval min max available (h.mono (by omega))
    simp only [repetition, hnext, Counter.next_exact, ih]

variable {m : Matcher D} {watch : Watcher σ} {input : Array Char}

/-- **An operator is the same under an exact count.** -/
theorem execute_exactly (h : m.counter.Holds input.size) : ∀ depth : Nat,
    execute ⟨m, watch, input⟩ depth = execute ⟨m.exactly, watch, input⟩ depth
  | 0 => rfl
  | depth + 1 => by
    have hstep : ∀ eval : Evaluator D σ, step ⟨m, watch, input⟩ eval = step ⟨m.exactly, watch, input⟩ eval := by
      intro eval
      funext ops i o r
      unfold step
      cases ops[i]? with
      | none => rfl
      | some op =>
        cases op with
        | rep min max child =>
          dsimp only [apply]
          rw [repetition_exactly _ min max _ (h.mono (by omega))]
          rfl
        | _ => rfl
    rw [execute, execute, execute_exactly h depth, hstep]

end Engine

namespace Matcher

variable {D σ : Type} {m : Matcher D} {input : Array Char}

/-- **A match to a depth is the same under an exact count.** -/
theorem parseFrom_exactly (h : m.counter.Holds input.size) (watch : Watcher σ) (depth : Nat) (id : RuleId) (data : D)
    (seen : σ) : m.parseFrom watch depth id input data seen = m.exactly.parseFrom watch depth id input data seen := by
  unfold parseFrom
  dsimp only
  rw [Engine.execute_exactly h depth]

/-- **A match is the same under an exact count.** -/
theorem parseWith_exactly (h : m.counter.Holds input.size) (watch : Watcher σ) (start : Text) (data : D) (seen : σ) :
    m.parseWith watch start input data seen = m.exactly.parseWith watch start input data seen := by
  unfold parseWith
  simp only [parseFrom_exactly h]
  rfl

end Matcher
end SignIn
