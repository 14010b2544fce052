import Mathlib.Data.List.Forall2
import SignIn.Match.Engine
/-!
# Two matches side by side

Most of what is true of a match is proved by following two of them in step: the engine and the engine that
checks each call, a match to one depth and to a greater one, the opcodes of a rule and the expression they
were made from.  `Outcome.Agree` says what "in step" is.  The operators that combine others (choice,
sequence, repetition) keep whatever their children keep, and each of them is followed once, here.

What a phrase has to be is a parameter, a property of an offset and a phrase.  `Phrase.Tiling` is what the
property has to satisfy so that a sequence keeps it: phrases that begin where the last one ended may be laid
end to end.
-/
namespace SignIn

/-- **Properties of phrases that survive laying phrases end to end.** -/
structure Phrase.Tiling (good : Nat → Phrase → Prop) : Prop where
  fail : ∀ {o n}, good o (.ofLength n) → good o .fail
  start : ∀ {o n}, good o (.ofLength n) → good (o + n) .empty
  append : ∀ {o n p}, good o (.ofLength n) → good (o + n) p → good o (.ofLength (n + p.length))

@[simp] theorem Phrase.ofLength_zero : Phrase.ofLength 0 = .empty := rfl

namespace Outcome

variable {ρ τ : Type}

/-- **A chain ended if its first part did,** and the rest after it. -/
theorem andThen_eq_ended {o : Outcome ρ} {k : Phrase → ρ → Outcome ρ} {p : Phrase} {r : ρ} :
    o.andThen k = .ended p r ↔ ∃ q t, o = .ended q t ∧ k q t = .ended p r := by
  cases o <;> simp [andThen]

/-- **Two outcomes agree:** both ended with one phrase, which is good, and their runs are related by `R`, or both
were broken off by one error and their runs are related by `B`; neither is stuck.  If one is starved, so is the
other, unless `lax` allows the second to have gone further. -/
def Agree (lax : Prop) (good : Phrase → Prop) (R B : ρ → τ → Prop) : Outcome ρ → Outcome τ → Prop
  | .ended p r, .ended q t => p = q ∧ good p ∧ R r t
  | .broken e r, .broken f t => e = f ∧ B r t
  | .starved, o => lax ∨ o = .starved
  | _, _ => False

variable {lax : Prop} {good good' : Phrase → Prop} {R R' B : ρ → τ → Prop}

theorem Agree.ended {p : Phrase} {r : ρ} {t : τ} (hp : good p) (hr : R r t) :
    Agree lax good R B (.ended p r) (.ended p t) := ⟨rfl, hp, hr⟩

theorem Agree.broken {e : MatchError} {r : ρ} {t : τ} (hr : B r t) :
    Agree lax good R B (.broken e r) (.broken e t) := ⟨rfl, hr⟩

theorem Agree.mono {o : Outcome ρ} {o' : Outcome τ} (h : Agree lax good R B o o') (hg : ∀ p, good p → good' p) :
    Agree lax good' R B o o' := by
  cases o <;> cases o' <;> simp only [Agree] at h ⊢
  · exact ⟨h.1, hg _ h.2.1, h.2.2⟩
  all_goals exact h

/-- **Agreement goes on:** outcomes that agree, followed by steps that agree on every good phrase. -/
theorem Agree.andThen {o : Outcome ρ} {o' : Outcome τ} {k : Phrase → ρ → Outcome ρ}
    {k' : Phrase → τ → Outcome τ} (h : Agree lax good R B o o')
    (hk : ∀ p r t, good p → R r t → Agree lax good' R' B (k p r) (k' p t)) :
    Agree lax good' R' B (o.andThen k) (o'.andThen k') := by
  cases o <;> cases o' <;> simp only [Agree] at h
  · obtain ⟨rfl, hp, hr⟩ := h
    exact hk _ _ _ hp hr
  · exact h
  all_goals simp_all [Outcome.andThen, Agree]

/-- A last touch to the first run is allowed that keeps the relation. -/
theorem Agree.touch {o : Outcome ρ} {o' : Outcome τ} {f : Phrase → ρ → ρ} (h : Agree lax good R B o o')
    (hf : ∀ p r t, R r t → R' (f p r) t) : Agree lax good R' B (o.andThen fun p r => .ended p (f p r)) o' := by
  cases o <;> cases o' <;> simp only [Agree] at h
  · exact ⟨h.1, h.2.1, hf _ _ _ h.2.2⟩
  · exact h
  all_goals simp_all [Outcome.andThen, Agree]

end Outcome

namespace Engine

open Outcome (Agree)

variable {ι κ ρ τ : Type} {lax : Prop} {R B : ρ → τ → Prop} {good : Nat → Phrase → Prop}

/-- **Choices agree whose children do.** -/
theorem choice_agree {good : Phrase → Prop} {eval : ι → ρ → Outcome ρ} {eval' : κ → τ → Outcome τ} (hfail : good .fail) :
    ∀ {cs : List ι} {ds : List κ},
      List.Forall₂ (fun c d => ∀ r t, R r t → Agree lax good R B (eval c r) (eval' d t)) cs ds →
      ∀ r t, R r t → Agree lax good R B (choice eval cs r) (choice eval' ds t)
  | _, _, .nil, _, _, hr => .ended hfail hr
  | _, _, .cons hc hcs, r, t, hr => by
    refine (hc r t hr).andThen fun p r t hp hr => ?_
    by_cases hs : p.state = .noMatch
    · simp only [hs, if_true]
      exact choice_agree hfail hcs r t hr
    · simp only [hs, if_false]
      exact .ended hp hr

/-- **Sequences agree whose children do,** each where the one before it ended. -/
theorem sequence_agree (hT : Phrase.Tiling good) {eval : ι → Nat → ρ → Outcome ρ}
    {eval' : κ → Nat → τ → Outcome τ} {o : Nat} :
    ∀ {cs : List ι} {ds : List κ},
      List.Forall₂ (fun c d => ∀ n r t, good (o + n) .empty → R r t →
        Agree lax (good (o + n)) R B (eval c n r) (eval' d n t)) cs ds →
      ∀ n r t, good o (.ofLength n) → R r t →
        Agree lax (good o) R B (sequence eval cs n r) (sequence eval' ds n t)
  | _, _, .nil, _, _, _, hn, hr => .ended hn hr
  | _, _, .cons hc hcs, n, r, t, hn, hr => by
    refine (hc n r t (hT.start hn) hr).andThen fun p r t hp hr => ?_
    by_cases hs : p.state = .noMatch
    · simp only [hs, if_true]
      exact .ended (hT.fail hn) hr
    · simp only [hs, if_false]
      exact sequence_agree hT hcs _ r t (hT.append hn hp) hr

theorem good_repeated (hT : Phrase.Tiling good) {o n : Nat} (min count : Nat) (hn : good o (.ofLength n)) :
    good o (repeated min count n) := by
  unfold repeated
  split
  · exact hn
  · exact hT.fail hn

/-- **Repetitions agree whose children do,** wherever a round begins. -/
theorem repetition_agree (hT : Phrase.Tiling good) {counter : Counter} {eval : Nat → ρ → Outcome ρ}
    {eval' : Nat → τ → Outcome τ} {o : Nat} {min : Nat} {max : Option Nat} {available : Nat}
    (h : ∀ n r t, good (o + n) .empty → R r t → Agree lax (good (o + n)) R B (eval n r) (eval' n t)) :
    ∀ budget count n r t, good o (.ofLength n) → R r t →
      Agree lax (good o) R B (repetition counter eval min max available budget count n r)
        (repetition counter eval' min max available budget count n t)
  | 0, count, n, r, t, hn, hr => .ended (good_repeated hT min count hn) hr
  | budget + 1, count, n, r, t, hn, hr => by
    unfold repetition
    by_cases ha : available ≤ n
    · simp only [ha, if_true]
      exact .ended (good_repeated hT min count hn) hr
    · simp only [ha, if_false]
      refine (h n r t (hT.start hn) hr).andThen fun p r t hp hr => ?_
      cases p.state with
      | active => exact .ended (good_repeated hT min count hn) hr
      | noMatch => exact .ended (good_repeated hT min count hn) hr
      | emptyMatch => exact .ended hn hr
      | matched =>
        by_cases hm : max = some (counter.next count)
        · simp only [hm, if_true]
          exact .ended (good_repeated hT min _ (hT.append hn hp)) hr
        · simp only [hm, if_false]
          exact repetition_agree hT h budget _ _ r t (hT.append hn hp) hr

end Engine
end SignIn
