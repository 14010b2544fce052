import SignIn.Proofs.Expr.Outcome
import SignIn.Proofs.Grammar.Names
/-!
# Rules that do not reach themselves

An expression whose rules do not lead back to themselves is done within a depth that can be told without an input: the
number of operators that are nested in it when every reference is opened.  `Expr.within` looks whether a number of
levels is enough, and where it is, no match to that depth is starved (`Lexicon.run_ne_starved`).
-/
namespace SignIn

/-- **An expression is no deeper than a number of levels,** references opened. -/
def Expr.within (rules : List (Text × Expr)) : Nat → Expr → Bool
  | 0, _ => false
  | n + 1, .alt items => items.all (Expr.within rules n)
  | n + 1, .cat items => items.all (Expr.within rules n)
  | n + 1, .rep _ _ item => Expr.within rules n item
  | n + 1, .rnm name =>
    match rules.find? fun r => r.1 == name with
    | some r => Expr.within rules n r.2
    | none => false
  | n + 1, .and item => Expr.within rules n item
  | n + 1, .not item => Expr.within rules n item
  | _ + 1, _ => true

namespace Outcome

variable {ρ ι : Type}

theorem andThen_ne_starved {o : Outcome ρ} {k : Phrase → ρ → Outcome ρ} (h : o ≠ .starved)
    (hk : ∀ p r, k p r ≠ .starved) : o.andThen k ≠ .starved := by
  cases o with
  | ended p r => exact hk p r
  | broken e r => simp [andThen]
  | stuck => simp [andThen]
  | starved => exact absurd rfl h

theorem choice_ne_starved {eval : ι → ρ → Outcome ρ} : ∀ {cs : List ι}, (∀ c ∈ cs, ∀ r, eval c r ≠ .starved) →
    ∀ r, Engine.choice eval cs r ≠ .starved
  | [], _, _ => by simp [Engine.choice]
  | c :: cs, h, r => by
    refine andThen_ne_starved (h c List.mem_cons_self r) fun p r => ?_
    split
    · exact choice_ne_starved (fun c hc => h c (List.mem_cons_of_mem _ hc)) r
    · simp

theorem sequence_ne_starved {eval : ι → Nat → ρ → Outcome ρ} :
    ∀ {cs : List ι}, (∀ c ∈ cs, ∀ n r, eval c n r ≠ .starved) → ∀ n r, Engine.sequence eval cs n r ≠ .starved
  | [], _, _, _ => by simp [Engine.sequence]
  | c :: cs, h, n, r => by
    refine andThen_ne_starved (h c List.mem_cons_self n r) fun p r => ?_
    split
    · simp
    · exact sequence_ne_starved (fun c hc => h c (List.mem_cons_of_mem _ hc)) _ r

theorem repetition_ne_starved {counter : Counter} {eval : Nat → ρ → Outcome ρ} {min : Nat} {max : Option Nat}
    {available : Nat} (h : ∀ n r, eval n r ≠ .starved) :
    ∀ budget count n r, Engine.repetition counter eval min max available budget count n r ≠ .starved
  | 0, _, _, _ => by simp [Engine.repetition]
  | budget + 1, count, n, r => by
    unfold Engine.repetition
    split
    · simp
    refine andThen_ne_starved (h n r) fun p r => ?_
    cases p.state with
    | matched =>
      dsimp only
      split
      · simp
      · exact repetition_ne_starved h budget _ _ r
    | _ => simp

end Outcome

namespace Lexicon

variable {D : Type} {l : Lexicon D} {input : Array Char}

theorem ask_ne_starved (f : Callback D) (name : Text) (descending : Bool) (p : Phrase) (o : Nat) (d : D) :
    ask input f name descending p o d ≠ .starved := by
  unfold ask
  dsimp only
  split <;> simp

theorem callUdt_ne_starved (id : UdtId) (o : Nat) (d : D) : l.callUdt input id o d ≠ .starved := by
  unfold callUdt
  split
  · simp
  split
  · simp
  refine Outcome.andThen_ne_starved (ask_ne_starved _ _ _ _ _ _) fun p d => ?_
  split <;> simp

theorem callRule_ne_starved {eval : Expr → Nat → D → Outcome D} {id : RuleId} {n : Text} {body : Expr}
    (hid : l.rules[id.index]? = some (n, body)) (h : ∀ o d, eval body o d ≠ .starved) (o : Nat) (d : D) :
    l.callRule input eval id o d ≠ .starved := by
  unfold callRule
  rw [hid]
  dsimp only
  split
  · exact h o d
  · refine Outcome.andThen_ne_starved (ask_ne_starved _ _ _ _ _ _) fun p d => ?_
    split
    · exact Outcome.andThen_ne_starved (h o d) fun p d => ask_ne_starved _ _ _ _ _ _
    · simp

/-- **What is no deeper than the depth is not starved,** if the names of the lexicon are distinct. -/
theorem run_ne_starved (hd : ((l.names.rules ++ l.names.udts).map foldCase).Nodup) :
    ∀ {depth : Nat} {e : Expr}, e.within l.rules depth = true → ∀ o d, l.run input depth e o d ≠ .starved
  | depth + 1, e, hw, o, d => by
    have ih {e : Expr} (he : e.within l.rules depth = true) : ∀ o d, l.run input depth e o d ≠ .starved :=
      run_ne_starved hd he
    show l.apply input (l.run input depth) e o d ≠ .starved
    cases e with
    | alt items =>
      rw [Expr.within, List.all_eq_true] at hw
      exact Outcome.choice_ne_starved (fun c hc r => ih (hw c hc) o r) d
    | cat items =>
      rw [Expr.within, List.all_eq_true] at hw
      exact Outcome.sequence_ne_starved (fun c hc n r => ih (hw c hc) (o + n) r) 0 d
    | rep min max item =>
      rw [Expr.within] at hw
      unfold apply
      dsimp only
      split
      · simp
      · exact Outcome.repetition_ne_starved (fun n r => ih hw (o + n) r) _ 0 0 d
    | rnm name =>
      rw [Expr.within] at hw
      split at hw
      · rename_i r hr
        obtain ⟨hname, i, hi, hget, -⟩ := List.find?_eq_some_iff_getElem.1 hr
        have hri : l.rules[i]? = some (r.1, r.2) := by rw [List.getElem?_eq_getElem hi, hget]
        have hres : l.resolve name = some (.rule ⟨i⟩) :=
          resolveName_rule hd (by simp [names, hri]) (sameName_iff.2 (congrArg foldCase (beq_iff_eq.1 hname).symm))
        unfold apply callName
        dsimp only
        rw [hres]
        exact callRule_ne_starved hri (ih hw) o d
      · cases hw
    | udt name =>
      unfold apply
      dsimp only
      split
      · exact callUdt_ne_starved _ o d
      · simp
    | and item =>
      rw [Expr.within] at hw
      exact Outcome.andThen_ne_starved (ih hw o d) fun p d => by simp
    | not item =>
      rw [Expr.within] at hw
      exact Outcome.andThen_ne_starved (ih hw o d) fun p d => by simp
    | trg min max => simp [apply]
    | tbs text => simp [apply]
    | tls text => simp [apply]

end Lexicon
end SignIn
