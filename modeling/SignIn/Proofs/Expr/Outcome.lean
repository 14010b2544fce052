import SignIn.Grammar.Expr
import SignIn.Proofs.Match.Step
/-!
# What an expression comes to

The rules of a grammar are written as expressions, and here they are run as expressions: a reference runs the
expression that its name stands for, and no opcode or index is in sight.  A `Lexicon` says what the names stand for.
`Lexicon.run` goes to a depth, as the engine does, and carries the caller's data along and nothing else.

To reason about a rule one does not want to count depths.  `Lexicon.outcome` is what `run` comes to at any depth that
is great enough, and `outcome_eq` says that it satisfies the equation of `run` without the depth: the outcome of an
expression is that of its operator applied to the outcomes of its operands.
-/
namespace SignIn

/-- **A phrase after some characters:** a failure, or the match of them all. -/
def Phrase.after (n : Nat) (p : Phrase) : Phrase := if p.state = .noMatch then .fail else .ofLength (n + p.length)

namespace Phrase

theorem state_ofLength_ne (n : Nat) : (ofLength n).state ≠ .noMatch := by
  unfold ofLength
  split <;> simp [empty]

theorem after_ofLength (m n : Nat) : (ofLength n).after m = ofLength (m + n) := by
  rw [after, if_neg (state_ofLength_ne n), length_ofLength]

theorem after_after (p : Phrase) (m n : Nat) : (p.after n).after m = p.after (m + n) := by
  by_cases h : p.state = .noMatch
  · simp [after, h, fail]
  · rw [after, after, after, if_neg h, if_neg h, if_neg (state_ofLength_ne _), length_ofLength, Nat.add_assoc]

theorem settled_after (n : Nat) (p : Phrase) : (p.after n).Settled := by
  unfold after
  split
  · exact settled_fail
  · exact settled_ofLength _

/-- After nothing, a settled phrase is what it was. -/
theorem after_zero {p : Phrase} (h : p.Settled) : p.after 0 = p := by
  obtain ⟨state, n⟩ := p
  obtain ⟨ha, hn⟩ := h
  cases state <;> simp_all [after, ofLength, fail, empty]
  omega

end Phrase

/-- **A sequence begun at a distance** is the sequence from there, after that distance. -/
theorem Engine.sequence_after {ι ρ : Type} (eval : ι → Nat → ρ → Outcome ρ) (m : Nat) : ∀ (cs : List ι) (n : Nat) (r : ρ),
    sequence eval cs (m + n) r = (sequence (fun c k => eval c (m + k)) cs n r).andThen fun q r => .ended (q.after m) r
  | [], n, r => by
    rw [sequence, sequence, Outcome.andThen, Phrase.after_ofLength]
  | c :: cs, n, r => by
    unfold sequence
    cases eval c (m + n) r with
    | ended p r =>
      dsimp only [Outcome.andThen]
      by_cases hp : p.state = .noMatch
      · rw [if_pos hp, if_pos hp]
        rfl
      · rw [if_neg hp, if_neg hp, Nat.add_assoc]
        exact sequence_after eval m cs (n + p.length) r
    | broken e r => rfl
    | stuck => rfl
    | starved => rfl

/-- **What names stand for:** rules and terminals in their order, with their callbacks; and what rounds are counted in. -/
structure Lexicon (D : Type) where
  rules : List (Text × Expr)
  udts : List (Text × Bool)
  onRule : RuleId → Option (Callback D)
  onUdt : UdtId → Option (Callback D)
  counter : Counter

namespace Lexicon

variable {D : Type}

def names (l : Lexicon D) : Names := ⟨l.rules.map (·.1), l.udts.map (·.1)⟩

def resolve (l : Lexicon D) (name : Text) : Option Symbol := resolveName l.names.rules l.names.udts name

/-- A callback is asked, and its phrase settled. -/
def ask (input : Array Char) (f : Callback D) (name : Text) (descending : Bool) (p : Phrase) (o : Nat) (d : D) :
    Outcome D :=
  let answer := f p input o d
  match Engine.settle name (input.size - o) descending answer.1 with
  | .ok p => .ended p answer.2
  | .error e => .broken e answer.2

/-- **A rule runs its expression,** between the two questions to its callback if it has one. -/
def callRule (l : Lexicon D) (input : Array Char) (eval : Expr → Nat → D → Outcome D) (id : RuleId) (o : Nat) (d : D) :
    Outcome D :=
  match l.rules[id.index]? with
  | none => .broken .outOfTable d
  | some (name, body) =>
    match l.onRule id with
    | none => eval body o d
    | some f =>
      (ask input f name true .undecided o d).andThen fun p d =>
        if p.state = .active then (eval body o d).andThen fun p d => ask input f name false p o d
        else .ended p d

/-- **A terminal is what its callback says.** -/
def callUdt (l : Lexicon D) (input : Array Char) (id : UdtId) (o : Nat) (d : D) : Outcome D :=
  match l.udts[id.index]? with
  | none => .broken .outOfTable d
  | some (name, acceptsEmpty) =>
    match l.onUdt id with
    | none => .broken (.unboundUdt name) d
    | some f =>
      (ask input f name false .undecided o d).andThen fun p d =>
        if p.state = .emptyMatch && !acceptsEmpty then .broken (.emptyUdt name) d else .ended p d

/-- **A name runs what it stands for.** -/
def callName (l : Lexicon D) (input : Array Char) (eval : Expr → Nat → D → Outcome D) (name : Text) (o : Nat) (d : D) :
    Outcome D :=
  match l.resolve name with
  | some (.rule id) => l.callRule input eval id o d
  | some (.udt id) => l.callUdt input id o d
  | none => .broken .outOfTable d

/-- A lookahead reads nothing. -/
def peek (outcome : Outcome D) (positive : Bool) : Outcome D :=
  outcome.andThen fun p d => .ended (if p.isSuccess = positive then .empty else .fail) d

/-- **One operator of an expression,** given the evaluator of its operands. -/
def apply (l : Lexicon D) (input : Array Char) (eval : Expr → Nat → D → Outcome D) (e : Expr) (o : Nat) (d : D) :
    Outcome D :=
  match e with
  | .alt items => Engine.choice (fun e => eval e o) items d
  | .cat items => Engine.sequence (fun e n => eval e (o + n)) items 0 d
  | .rep min max item =>
    if max = some 0 then .ended .empty d
    else
      let available := input.size - o
      Engine.repetition l.counter (fun n => eval item (o + n)) min max available available 0 0 d
  | .rnm name => l.callName input eval name o d
  | .udt name =>
    match l.resolve name with
    | some (.udt id) => l.callUdt input id o d
    | _ => .broken .outOfTable d
  | .trg min max => .ended (Engine.range input min max o) d
  | .tbs text => .ended (Engine.literal input text o) d
  | .tls text => .ended (Engine.foldedLiteral input (foldCase text) o) d
  | .and item => peek (eval item o d) true
  | .not item => peek (eval item o d) false

/-- **An expression run to a depth.** -/
def run (l : Lexicon D) (input : Array Char) : Nat → Expr → Nat → D → Outcome D
  | 0 => fun _ _ _ => .starved
  | depth + 1 => l.apply input (l.run input depth)

end Lexicon

/-! ## Greater depths go further -/

/-- **An outcome goes no further than another:** it is the same one, or starved.  On the way its phrase is seen to fit
the input, from an offset that is within it. -/
def Outcome.Le {ρ : Type} (size o : Nat) (x y : Outcome ρ) : Prop :=
  x.Agree True (fun p => o ≤ size → p.Fits size o) Eq Eq y

theorem Outcome.Le.eq {ρ : Type} {size o : Nat} {x y : Outcome ρ} (h : x.Le size o y) (hs : x ≠ .starved) : x = y := by
  cases x <;> cases y <;> simp_all [Le, Agree]

theorem Outcome.Le.fits {ρ : Type} {size o : Nat} {p : Phrase} {r : ρ} {y : Outcome ρ}
    (h : (Outcome.ended p r).Le size o y) (ho : o ≤ size) : p.Fits size o := by
  cases y <;> simp only [Le, Agree] at h
  exact h.2.1 ho

theorem Phrase.tiling_fits_within (size : Nat) : Phrase.Tiling fun o p => o ≤ size → p.Fits size o where
  fail _ ho := Phrase.fits_fail.2 ho
  start _ ho := Phrase.fits_empty.2 ho
  append hn hp ho := by
    have hn := Phrase.fits_ofLength.1 (hn ho)
    rw [Phrase.fits_ofLength, ← Nat.add_assoc]
    exact (hp hn).2

namespace Lexicon

open Outcome (Le Agree)

variable {D : Type} {l : Lexicon D} {input : Array Char} {eval eval' : Expr → Nat → D → Outcome D}

theorem ask_le (f : Callback D) (name : Text) (descending : Bool) (p : Phrase) (o : Nat) (d : D) :
    Agree True (fun q => (q.state = .active ∧ descending = true) ∨ (o ≤ input.size → q.Fits input.size o)) Eq Eq
      (ask input f name descending p o d) (ask input f name descending p o d) := by
  unfold ask
  dsimp only
  split
  · rename_i q hq
    refine .ended ?_ rfl
    by_cases ho : o ≤ input.size
    · exact (Engine.settle_eq_ok ho hq).imp_right fun h _ => h
    · exact .inr fun h => absurd h ho
  · exact .broken rfl

theorem ask_le_decided (f : Callback D) (name : Text) (p : Phrase) (o : Nat) (d : D) :
    (ask input f name false p o d).Le input.size o (ask input f name false p o d) :=
  (ask_le f name false p o d).mono fun _ h => h.resolve_left fun h => by cases h.2

theorem callUdt_le (id : UdtId) (o : Nat) (d : D) :
    (l.callUdt input id o d).Le input.size o (l.callUdt input id o d) := by
  unfold callUdt
  split
  · exact .broken rfl
  split
  · exact .broken rfl
  refine (ask_le_decided _ _ _ _ _).andThen ?_
  rintro p d _ hp rfl
  split
  · exact .broken rfl
  · exact .ended hp rfl

theorem callRule_le (h : ∀ e o d, (eval e o d).Le input.size o (eval' e o d)) (id : RuleId) (o : Nat) (d : D) :
    (l.callRule input eval id o d).Le input.size o (l.callRule input eval' id o d) := by
  unfold callRule
  split
  · exact .broken rfl
  split
  · exact h _ _ _
  refine (ask_le _ _ _ _ _ _).andThen ?_
  rintro p d _ hp rfl
  by_cases ha : p.state = .active
  · simp only [ha, if_true]
    refine (h _ _ _).andThen ?_
    rintro p d _ - rfl
    exact ask_le_decided _ _ _ _ _
  · simp only [ha, if_false]
    exact .ended (hp.resolve_left fun h => ha h.1) rfl

theorem callName_le (h : ∀ e o d, (eval e o d).Le input.size o (eval' e o d)) (name : Text) (o : Nat) (d : D) :
    (l.callName input eval name o d).Le input.size o (l.callName input eval' name o d) := by
  unfold callName
  split
  · exact callRule_le h _ o d
  · exact callUdt_le _ o d
  · exact .broken rfl

theorem peek_le {o : Nat} {x y : Outcome D} (h : x.Le input.size o y) (positive : Bool) :
    (peek x positive).Le input.size o (peek y positive) := by
  refine h.andThen ?_
  rintro p d _ - rfl
  refine .ended (fun ho => ?_) rfl
  split
  · exact Phrase.fits_empty.2 ho
  · exact Phrase.fits_fail.2 ho

/-- **An operator goes no further than its operands do.** -/
theorem apply_le (h : ∀ e o d, (eval e o d).Le input.size o (eval' e o d)) (e : Expr) (o : Nat) (d : D) :
    (l.apply input eval e o d).Le input.size o (l.apply input eval' e o d) := by
  have hT := Phrase.tiling_fits_within input.size
  have h0 : o ≤ input.size → (Phrase.ofLength 0).Fits input.size o := Phrase.fits_empty.2
  cases e with
  | alt items =>
    refine Engine.choice_agree (fun ho => hT.fail h0 ho) (List.forall₂_same.2 ?_) d d rfl
    rintro e - d _ rfl
    exact h e o d
  | cat items =>
    refine Engine.sequence_agree hT (List.forall₂_same.2 ?_) 0 d d h0 rfl
    rintro e - n d _ - rfl
    exact h e (o + n) d
  | rep min max item =>
    unfold apply
    dsimp only
    split
    · exact .ended h0 rfl
    · refine Engine.repetition_agree hT ?_ _ 0 0 d d h0 rfl
      rintro n d _ - rfl
      exact h item (o + n) d
  | rnm name => exact callName_le h name o d
  | udt name =>
    unfold apply
    dsimp only
    split
    · exact callUdt_le _ o d
    · exact .broken rfl
  | trg min max => exact .ended (Engine.range_fits input min max) rfl
  | tbs text => exact .ended (Engine.literal_fits input text) rfl
  | tls text => exact .ended (Engine.foldedLiteral_fits input (foldCase text)) rfl
  | and item => exact peek_le (h item o d) true
  | not item => exact peek_le (h item o d) false

theorem run_le_succ : ∀ (depth : Nat) (e : Expr) (o : Nat) (d : D),
    (l.run input depth e o d).Le input.size o (l.run input (depth + 1) e o d)
  | 0, _, _, _ => .inl trivial
  | depth + 1, e, o, d => apply_le (run_le_succ depth) e o d

/-- **What has come out at one depth comes out at every greater one.** -/
theorem run_of_le {depth depth' : Nat} (hle : depth ≤ depth') {e : Expr} {o : Nat} {d : D}
    (hs : l.run input depth e o d ≠ .starved) : l.run input depth' e o d = l.run input depth e o d := by
  induction hle with
  | refl => rfl
  | step _ ih => rw [← (run_le_succ _ e o d).eq (by rw [ih]; exact hs), ih]

/-! ## Outcomes without a depth -/

open Classical in
/-- **The outcome of an expression:** what it comes to at a depth that is great enough, if any is. -/
noncomputable def outcome (l : Lexicon D) (input : Array Char) (e : Expr) (o : Nat) (d : D) : Outcome D :=
  if h : ∃ depth, l.run input depth e o d ≠ .starved then l.run input h.choose e o d else .starved

theorem outcome_eq_run {depth : Nat} {e : Expr} {o : Nat} {d : D} (hs : l.run input depth e o d ≠ .starved) :
    l.outcome input e o d = l.run input depth e o d := by
  have h : ∃ depth, l.run input depth e o d ≠ .starved := ⟨depth, hs⟩
  rw [outcome, dif_pos h]
  rcases Nat.le_total depth h.choose with hle | hle
  · exact run_of_le hle hs
  · exact (run_of_le hle h.choose_spec).symm

theorem run_le_outcome (depth : Nat) (e : Expr) (o : Nat) (d : D) :
    (l.run input depth e o d).Le input.size o (l.outcome input e o d) := by
  by_cases hs : l.run input depth e o d = .starved
  · rw [hs]
    exact .inl trivial
  · rw [outcome_eq_run hs]
    have hle : (l.run input depth e o d).Le input.size o (l.run input (depth + 1) e o d) := run_le_succ depth e o d
    rwa [run_of_le (Nat.le_succ depth) hs] at hle

/-- **What an expression comes to fits the input.** -/
theorem fits_outcome {e : Expr} {o : Nat} {d d' : D} {p : Phrase} (h : l.outcome input e o d = .ended p d')
    (ho : o ≤ input.size) : p.Fits input.size o := by
  have hs : ∃ depth, l.run input depth e o d ≠ .starved := by
    refine Classical.byContradiction fun hn => ?_
    rw [outcome, dif_neg hn] at h
    cases h
  obtain ⟨depth, hs⟩ := hs
  rw [outcome_eq_run hs] at h
  have hle : (l.run input depth e o d).Le input.size o (l.run input (depth + 1) e o d) := run_le_succ depth e o d
  rw [h] at hle
  exact hle.fits ho

end Lexicon

/-- **A chain of outcomes has a limit** if it reaches it and stays there, unless the limit is starved. -/
def Outcome.Limit {ρ : Type} (chain : Nat → Outcome ρ) (o : Outcome ρ) : Prop :=
  o ≠ .starved → ∃ k, ∀ j, k ≤ j → chain j = o

namespace Outcome.Limit

variable {ρ ι : Type}

theorem const (o : Outcome ρ) : Limit (fun _ => o) o := fun _ => ⟨0, fun _ _ => rfl⟩

theorem andThen {chain : Nat → Outcome ρ} {o : Outcome ρ} {next : Nat → Phrase → ρ → Outcome ρ}
    {k : Phrase → ρ → Outcome ρ} (h : Limit chain o) (hk : ∀ p r, Limit (fun j => next j p r) (k p r)) :
    Limit (fun j => (chain j).andThen (next j)) (o.andThen k) := by
  intro hs
  have ho : o ≠ .starved := by rintro rfl; exact hs rfl
  obtain ⟨a, ha⟩ := h ho
  cases o with
  | ended p r =>
    obtain ⟨b, hb⟩ := hk p r hs
    refine ⟨max a b, fun j hj => ?_⟩
    dsimp only
    rw [ha j (by omega)]
    exact hb j (by omega)
  | broken e r => exact ⟨a, fun j hj => congrArg (·.andThen (next j)) (ha j hj)⟩
  | stuck => exact ⟨a, fun j hj => congrArg (·.andThen (next j)) (ha j hj)⟩
  | starved => exact absurd rfl ho

theorem choice {chain : Nat → ι → ρ → Outcome ρ} {eval : ι → ρ → Outcome ρ}
    (h : ∀ c r, Limit (fun j => chain j c r) (eval c r)) :
    ∀ (cs : List ι) (r : ρ), Limit (fun j => Engine.choice (chain j) cs r) (Engine.choice eval cs r)
  | [], r => const _
  | c :: cs, r => by
    refine (h c r).andThen fun p r => ?_
    by_cases hp : p.state = .noMatch
    · simp only [hp, if_true]
      exact choice h cs r
    · simp only [hp, if_false]
      exact const _

theorem sequence {chain : Nat → ι → Nat → ρ → Outcome ρ} {eval : ι → Nat → ρ → Outcome ρ}
    (h : ∀ c n r, Limit (fun j => chain j c n r) (eval c n r)) :
    ∀ (cs : List ι) (n : Nat) (r : ρ), Limit (fun j => Engine.sequence (chain j) cs n r) (Engine.sequence eval cs n r)
  | [], n, r => const _
  | c :: cs, n, r => by
    refine (h c n r).andThen fun p r => ?_
    by_cases hp : p.state = .noMatch
    · simp only [hp, if_true]
      exact const _
    · simp only [hp, if_false]
      exact sequence h cs _ r

theorem repetition {chain : Nat → Nat → ρ → Outcome ρ} {eval : Nat → ρ → Outcome ρ} (counter : Counter) (min : Nat)
    (max : Option Nat) (available : Nat) (h : ∀ n r, Limit (fun j => chain j n r) (eval n r)) :
    ∀ (budget count n : Nat) (r : ρ),
      Limit (fun j => Engine.repetition counter (chain j) min max available budget count n r)
        (Engine.repetition counter eval min max available budget count n r)
  | 0, count, n, r => const _
  | budget + 1, count, n, r => by
    unfold Engine.repetition
    by_cases ha : available ≤ n
    · simp only [ha, if_true]
      exact const _
    · simp only [ha, if_false]
      refine (h n r).andThen fun p r => ?_
      cases p.state with
      | matched =>
        dsimp only
        split
        · exact const _
        · exact repetition counter min max available h budget _ _ r
      | active => exact const _
      | emptyMatch => exact const _
      | noMatch => exact const _

end Outcome.Limit

namespace Lexicon

open Outcome (Limit)

variable {D : Type} {l : Lexicon D} {input : Array Char}

theorem limit_run (e : Expr) (o : Nat) (d : D) : Limit (fun j => l.run input j e o d) (l.outcome input e o d) := by
  intro hs
  have h : ∃ depth, l.run input depth e o d ≠ .starved := by
    refine Classical.byContradiction fun hn => hs ?_
    rw [outcome, dif_neg hn]
  obtain ⟨depth, hd⟩ := h
  exact ⟨depth, fun j hj => (run_of_le hj hd).trans (outcome_eq_run hd).symm⟩

theorem limit_callRule {chain : Nat → Expr → Nat → D → Outcome D} {eval : Expr → Nat → D → Outcome D}
    (h : ∀ e o d, Limit (fun j => chain j e o d) (eval e o d)) (id : RuleId) (o : Nat) (d : D) :
    Limit (fun j => l.callRule input (chain j) id o d) (l.callRule input eval id o d) := by
  unfold callRule
  cases l.rules[id.index]? with
  | none => exact .const _
  | some rule =>
    cases l.onRule id with
    | none => exact h _ o d
    | some f =>
      refine (Limit.const _).andThen fun p d => ?_
      by_cases hp : p.state = .active
      · simp only [hp, if_true]
        exact (h _ o d).andThen fun p d => .const _
      · simp only [hp, if_false]
        exact .const _

theorem limit_callName {chain : Nat → Expr → Nat → D → Outcome D} {eval : Expr → Nat → D → Outcome D}
    (h : ∀ e o d, Limit (fun j => chain j e o d) (eval e o d)) (name : Text) (o : Nat) (d : D) :
    Limit (fun j => l.callName input (chain j) name o d) (l.callName input eval name o d) := by
  unfold callName
  cases l.resolve name with
  | none => exact .const _
  | some symbol =>
    cases symbol with
    | rule id => exact limit_callRule h id o d
    | udt id => exact .const _

theorem limit_apply {chain : Nat → Expr → Nat → D → Outcome D} {eval : Expr → Nat → D → Outcome D}
    (h : ∀ e o d, Limit (fun j => chain j e o d) (eval e o d)) (e : Expr) (o : Nat) (d : D) :
    Limit (fun j => l.apply input (chain j) e o d) (l.apply input eval e o d) := by
  cases e with
  | alt items => exact Limit.choice (fun e d => h e o d) items d
  | cat items => exact Limit.sequence (fun e n d => h e (o + n) d) items 0 d
  | rep min max item =>
    unfold apply
    by_cases hm : max = some 0
    · simp only [hm, if_true]
      exact .const _
    · simp only [hm, if_false]
      exact Limit.repetition l.counter min max _ (fun n d => h item (o + n) d) _ 0 0 d
  | rnm name => exact limit_callName h name o d
  | and item => exact (h item o d).andThen fun p d => .const _
  | not item => exact (h item o d).andThen fun p d => .const _
  | _ => exact .const _

/-- **The outcome of an expression is that of its operator on the outcomes of its operands.** -/
theorem outcome_eq (l : Lexicon D) (input : Array Char) (e : Expr) (o : Nat) (d : D) :
    l.outcome input e o d = l.apply input (l.outcome input) e o d := by
  by_cases hs : l.apply input (l.outcome input) e o d = .starved
  · rw [hs]
    refine Classical.byContradiction fun hn => ?_
    obtain ⟨k, hk⟩ := limit_run e o d hn
    have hk : l.apply input (l.run input k) e o d = l.outcome input e o d := hk (k + 1) (Nat.le_succ k)
    have hle : (l.apply input (l.run input k) e o d).Le input.size o (l.apply input (l.outcome input) e o d) :=
      apply_le (run_le_outcome k) e o d
    replace hle := hle.eq (by rw [hk]; exact hn)
    rw [hk, hs] at hle
    exact hn hle
  · obtain ⟨k, hk⟩ := limit_apply (l := l) limit_run e o d hs
    have hk : l.run input (k + 1) e o d = _ := hk k (Nat.le_refl k)
    rw [outcome_eq_run (by rw [hk]; exact hs), hk]

theorem outcome_alt_cons (l : Lexicon D) (input : Array Char) (e : Expr) (es : List Expr) (o : Nat) (d : D) :
    l.outcome input (.alt (e :: es)) o d = (l.outcome input e o d).andThen fun p d =>
      if p.state = .noMatch then l.outcome input (.alt es) o d else .ended p d := by
  rw [outcome_eq, apply, Engine.choice]
  congr
  funext p d
  rw [outcome_eq l input (.alt es), apply]

theorem outcome_cat_cons (l : Lexicon D) (input : Array Char) (e : Expr) (es : List Expr) (o : Nat) (d : D) :
    l.outcome input (.cat (e :: es)) o d = (l.outcome input e o d).andThen fun p d =>
      if p.state = .noMatch then .ended .fail d
      else (l.outcome input (.cat es) (o + p.length) d).andThen fun q d => .ended (q.after p.length) d := by
  rw [outcome_eq, apply, Engine.sequence, Nat.add_zero]
  congr
  funext p d
  have hseq := Engine.sequence_after (fun e n => l.outcome input e (o + n)) p.length es 0 d
  simp only [← Nat.add_assoc, Nat.add_zero] at hseq
  rw [Nat.zero_add, hseq, outcome_eq l input (.cat es), apply]

end Lexicon
end SignIn
