import SignIn.Proofs.Match.Callbacks
/-!
# What an audit vouches for

An audit notes whether every call of a callback met a demand.  A callback may go another way where its demand is not met,
as numbers of 32 bits do that begin anew; in a match whose audit found nothing that way was never gone, and callbacks that
answer alike where their demands are met, make the same match (`Matcher.parseWith_of_audit`).

The flag of an audit is never raised again.  So a run that ends with its flag up had it up all along, and from what a
match ended with one can go back through it (`Engine.Vouches`).
-/
namespace SignIn

variable {D σ : Type}

/-- A run without the flag of its audit. -/
def Run.unaudited (r : Run (D × Bool) σ) : Run D σ :=
  ⟨r.data.1, r.seen, r.lookahead, r.depth, r.deepest, r.hits, r.reach⟩

/-- **A matcher answers as another where demands are met:** it is of the same grammar, counts alike and has the same
terminals, and its rules' callbacks answer alike wherever the demand on the name of the rule is met. -/
structure Matcher.AnswersAs (m' m : Matcher D) (demand : Text → Phrase → Array Char → Nat → D → Bool) : Prop where
  grammar : m'.grammar = m.grammar
  counter : m'.counter = m.counter
  rule : ∀ id, id.index < m.grammar.rules.size → Option.Rel (fun f g => ∀ p input o d,
    demand ((m.grammar.rules[id.index]?).elim [] Rule.name) p input o d = true → g p input o d = f p input o d)
    (m.ruleCallback? id) (m'.ruleCallback? id)
  udt : ∀ id, m'.udtCallback? id = m.udtCallback? id

namespace Engine

/-- **A run under audit vouches for another:** where it ends with its flag up, the flag was up before, and the other ends
alike. -/
def Vouches (x : Run (D × Bool) σ → Outcome (Run (D × Bool) σ)) (y : Run D σ → Outcome (Run D σ)) : Prop :=
  ∀ ⦃r p t⦄, x r = .ended p t → t.data.2 = true → r.data.2 = true ∧ y r.unaudited = .ended p t.unaudited

variable {ι : Type} {x : Run (D × Bool) σ → Outcome (Run (D × Bool) σ)} {y : Run D σ → Outcome (Run D σ)}

theorem vouches_ended (p : Phrase) : Vouches (D := D) (σ := σ) (fun r => .ended p r) fun r => .ended p r := by
  rintro r q t h hflag
  cases h
  exact ⟨hflag, rfl⟩

theorem vouches_broken (e : MatchError) (y : Run D σ → Outcome (Run D σ)) : Vouches (fun r => .broken e r) y := by
  rintro r q t h
  cases h

theorem vouches_stuck (y : Run D σ → Outcome (Run D σ)) : Vouches (fun _ => .stuck) y := by
  rintro r q t h
  cases h

theorem Vouches.andThen (h : Vouches x y) {k : Phrase → Run (D × Bool) σ → Outcome (Run (D × Bool) σ)}
    {k' : Phrase → Run D σ → Outcome (Run D σ)} (hk : ∀ p, Vouches (k p) (k' p)) :
    Vouches (fun r => (x r).andThen k) fun r => (y r).andThen k' := by
  rintro r q t hend hflag
  obtain ⟨p, r₁, hx, hk₁⟩ := Outcome.andThen_eq_ended.1 hend
  obtain ⟨hmiddle, hrest⟩ := hk p hk₁ hflag
  obtain ⟨hfirst, hy⟩ := h hx hmiddle
  exact ⟨hfirst, Outcome.andThen_eq_ended.2 ⟨p, r₁.unaudited, hy, hrest⟩⟩

/-- What is decided by a phrase. -/
theorem Vouches.ite {c : Prop} [Decidable c] {x' : Run (D × Bool) σ → Outcome (Run (D × Bool) σ)}
    {y' : Run D σ → Outcome (Run D σ)} (h : Vouches x y) (h' : Vouches x' y') :
    Vouches (fun r => if c then x r else x' r) fun r => if c then y r else y' r := by
  by_cases hc : c
  · simpa only [hc, if_true] using h
  · simpa only [hc, if_false] using h'

/-! ## The operators -/

theorem vouches_choice {eval : ι → Run (D × Bool) σ → Outcome (Run (D × Bool) σ)}
    {eval' : ι → Run D σ → Outcome (Run D σ)} (h : ∀ c, Vouches (eval c) (eval' c)) :
    ∀ cs : List ι, Vouches (choice eval cs) (choice eval' cs)
  | [] => vouches_ended .fail
  | c :: cs => (h c).andThen fun _ => (vouches_choice h cs).ite (vouches_ended _)

theorem vouches_sequence {eval : ι → Nat → Run (D × Bool) σ → Outcome (Run (D × Bool) σ)}
    {eval' : ι → Nat → Run D σ → Outcome (Run D σ)} (h : ∀ c n, Vouches (eval c n) (eval' c n)) :
    ∀ (cs : List ι) (n : Nat), Vouches (sequence eval cs n) (sequence eval' cs n)
  | [], n => vouches_ended (.ofLength n)
  | c :: cs, n => (h c n).andThen fun p => (vouches_ended .fail).ite (vouches_sequence h cs (n + p.length))

theorem vouches_repetition {counter : Counter} {eval : Nat → Run (D × Bool) σ → Outcome (Run (D × Bool) σ)}
    {eval' : Nat → Run D σ → Outcome (Run D σ)} {min available : Nat} {max : Option Nat}
    (h : ∀ n, Vouches (eval n) (eval' n)) : ∀ budget count n : Nat,
      Vouches (repetition counter eval min max available budget count n)
        (repetition counter eval' min max available budget count n)
  | 0, count, n => vouches_ended (repeated min count n)
  | budget + 1, count, n => by
    refine (vouches_ended _).ite ((h n).andThen fun p => ?_)
    cases p.state with
    | matched => exact (vouches_ended _).ite (vouches_repetition h budget _ _)
    | emptyMatch => exact vouches_ended _
    | active => exact vouches_ended _
    | noMatch => exact vouches_ended _

theorem vouches_lookahead (h : Vouches x y) (positive : Bool) : Vouches (lookahead x positive) (lookahead y positive) := by
  rintro r q t hend hflag
  obtain ⟨p, r₁, hx, heq⟩ := Outcome.andThen_eq_ended.1 hend
  cases heq
  obtain ⟨hfirst, hy⟩ := h hx hflag
  exact ⟨hfirst, Outcome.andThen_eq_ended.2 ⟨p, r₁.unaudited, hy, rfl⟩⟩

/-! ## Callbacks -/

variable {m m' : Matcher D} {watch : Watcher σ} {input : Array Char}

/-- A callback under audit vouches for one that answers alike where the demand is met. -/
theorem vouches_ask {demand : Phrase → Array Char → Nat → D → Bool} {f g : Callback D} {M : Matcher (D × Bool)}
    (h : ∀ p input o d, demand p input o d = true → g p input o d = f p input o d) (name : Text) (descending : Bool)
    (p : Phrase) (o : Nat) :
    Vouches (ask ⟨M, watch, input⟩ (f.audited demand) name descending p o)
      (ask ⟨m', watch, input⟩ g name descending p o) := by
  rintro r q t hend hflag
  unfold ask at hend ⊢
  dsimp only at hend ⊢
  split at hend
  · cases hend
  rename_i ho
  split at hend
  · rename_i q' hq
    cases hend
    have hmet : r.data.2 = true ∧ demand p input o r.data.1 = true := Bool.and_eq_true_iff.1 hflag
    refine ⟨hmet.1, ?_⟩
    have hsame : g p input o r.unaudited.data = f p input o r.data.1 := h p input o r.data.1 hmet.2
    have hsettled : settle name (input.size - o) descending (f p input o r.data.1).1 = .ok q := hq
    rw [if_neg ho, hsame, hsettled]
    rfl
  · cases hend

theorem vouches_callRule {demand : Text → Phrase → Array Char → Nat → D → Bool} (hm : m'.AnswersAs m demand)
    {eval : Evaluator (D × Bool) σ} {eval' : Evaluator D σ} (h : ∀ ops i o, Vouches (eval ops i o) (eval' ops i o))
    (id : RuleId) (o : Nat) :
    Vouches (callRule ⟨m.audit demand, watch, input⟩ eval id o) (callRule ⟨m', watch, input⟩ eval' id o) := by
  unfold callRule
  simp only [show (m.audit demand).grammar = m.grammar from rfl, hm.grammar, m.ruleCallback?_audit]
  cases hrule : m.grammar.rules[id.index]? with
  | none => exact vouches_stuck _
  | some rule =>
    have hrel := hm.rule id (Array.getElem?_eq_some_iff.1 hrule).1
    generalize m.ruleCallback? id = f? at hrel
    generalize m'.ruleCallback? id = g? at hrel
    cases hrel with
    | none => exact h rule.opcodes 0 o
    | some hanswer =>
      rw [hrule] at hanswer
      refine (vouches_ask hanswer _ _ _ _).andThen fun p => Vouches.ite ?_ (vouches_ended _)
      exact (h rule.opcodes 0 o).andThen fun p => vouches_ask hanswer _ _ _ _

theorem vouches_callUdt {demand : Text → Phrase → Array Char → Nat → D → Bool} (hm : m'.AnswersAs m demand) (id : UdtId)
    (o : Nat) : Vouches (callUdt ⟨m.audit demand, watch, input⟩ id o) (callUdt ⟨m', watch, input⟩ id o) := by
  unfold callUdt
  simp only [show (m.audit demand).grammar = m.grammar from rfl, hm.grammar, m.udtCallback?_audit, hm.udt]
  cases m.grammar.udts[id.index]? with
  | none => exact vouches_stuck _
  | some udt =>
    cases m.udtCallback? id with
    | none => exact vouches_broken _ _
    | some f =>
      refine (vouches_ask (fun _ _ _ _ _ => rfl) _ _ _ _).andThen fun p => Vouches.ite ?_ (vouches_ended _)
      exact vouches_broken _ _

/-! ## All of them -/

theorem vouches_apply {demand : Text → Phrase → Array Char → Nat → D → Bool} (hm : m'.AnswersAs m demand)
    {eval : Evaluator (D × Bool) σ} {eval' : Evaluator D σ} (h : ∀ ops i o, Vouches (eval ops i o) (eval' ops i o))
    (ops : Array Opcode) (op : Opcode) (o : Nat) :
    Vouches (apply ⟨m.audit demand, watch, input⟩ eval ops op o) (apply ⟨m', watch, input⟩ eval' ops op o) := by
  cases op with
  | alt children => exact vouches_choice (fun c => h ops c o) children
  | cat children => exact vouches_sequence (fun c n => h ops c (o + n)) children 0
  | rep min max child =>
    refine (vouches_ended _).ite ?_
    dsimp only
    rw [hm.counter]
    exact vouches_repetition (fun n => h ops child (o + n)) _ 0 0
  | rnm id => exact vouches_callRule hm h id o
  | udt id => exact vouches_callUdt hm id o
  | trg min max => exact vouches_ended _
  | tbs text => exact vouches_ended _
  | tls text => exact vouches_ended _
  | and child => exact vouches_lookahead (h ops child o) true
  | not child => exact vouches_lookahead (h ops child o) false

/-- **An operator under audit vouches for the operator** of a matcher that answers alike. -/
theorem vouches_execute {demand : Text → Phrase → Array Char → Nat → D → Bool} (hm : m'.AnswersAs m demand) :
    ∀ (depth : Nat) (ops : Array Opcode) (i o : Nat),
      Vouches (execute ⟨m.audit demand, watch, input⟩ depth ops i o) (execute ⟨m', watch, input⟩ depth ops i o)
  | 0, _, _, _ => fun _ _ _ h => nomatch h
  | depth + 1, ops, i, o => by
    rintro r q t hend hflag
    unfold execute step at hend ⊢
    cases hop : ops[i]? with
    | none =>
      rw [hop] at hend
      cases hend
    | some op =>
      rw [hop] at hend
      obtain ⟨p, r₁, happly, heq⟩ := Outcome.andThen_eq_ended.1 hend
      cases heq
      obtain ⟨hfirst, hy⟩ := vouches_apply hm (vouches_execute hm depth) ops op o happly hflag
      exact ⟨hfirst, Outcome.andThen_eq_ended.2 ⟨q, r₁.unaudited, hy, rfl⟩⟩

end Engine

namespace Matcher

variable {m m' : Matcher D} {demand : Text → Phrase → Array Char → Nat → D → Bool}

theorem AnswersAs.unboundUdt? (hm : m'.AnswersAs m demand) : m'.unboundUdt? = (m.audit demand).unboundUdt? := by
  rw [(m.alike_audit demand).unboundUdt?.symm, Matcher.unboundUdt?, Matcher.unboundUdt?, hm.grammar]
  simp only [hm.udt]

theorem parseFrom_of_audit (hm : m'.AnswersAs m demand) {watch : Watcher σ} {depth : Nat} {id : RuleId}
    {input : Array Char} {data : D} {seen : σ} {report : MatchReport}
    (hok : ((m.audit demand).parseFrom watch depth id input (data, true) seen).result = .ok report)
    (hsound : ((m.audit demand).parseFrom watch depth id input (data, true) seen).data.2 = true) :
    m'.parseFrom watch depth id input data seen =
      ⟨.ok report, ((m.audit demand).parseFrom watch depth id input (data, true) seen).data.1,
        ((m.audit demand).parseFrom watch depth id input (data, true) seen).seen⟩ := by
  obtain ⟨p, r, hx, rfl⟩ := parseFrom_eq_ok hok
  have haudit : (m.audit demand).parseFrom watch depth id input (data, true) seen =
      ⟨.ok (report input p r), r.data, r.seen⟩ := by
    simp only [parseFrom, hx]
  rw [haudit] at hsound ⊢
  have hy : Engine.execute ⟨m', watch, input⟩ depth #[.rnm id] 0 0 (firstRun watch input data seen) =
      .ended p r.unaudited := (Engine.vouches_execute hm depth #[.rnm id] 0 0 hx hsound).2
  simp only [parseFrom, hy]
  rfl

/-- **Where an audit finds nothing, callbacks that answer alike where their demands are met make the same match.** -/
theorem parseWith_of_audit (hm : m'.AnswersAs m demand) (hg : m.grammar.WellFormed) {watch : Watcher σ} {start : Text}
    {input : Array Char} {data : D} {seen : σ} {report : MatchReport}
    (hok : (m.parseWith watch start input data seen).result = .ok report)
    (hsound : ((m.audit demand).parseWith watch start input (data, true) seen).data.2 = true) :
    m'.parseWith watch start input data seen = m.parseWith watch start input data seen := by
  obtain ⟨hresult, hseen, hdata⟩ :=
    (m.alike_audit demand).parseWith hg watch start input (rfl : ((data, true) : D × Bool).1 = data) seen
  have haudit : ((m.audit demand).parseWith watch start input (data, true) seen).result = .ok report := hresult.trans hok
  obtain ⟨id, hid, hbound, heq⟩ := parseWith_eq_ok haudit
  have hdepth : m'.depthFor input = (m.audit demand).depthFor input := by
    rw [depthFor, hm.grammar]
    rfl
  have hfrom : m'.parseWith watch start input data seen =
      m'.parseFrom watch ((m.audit demand).depthFor input) id input data seen := by
    rw [parseWith, hm.grammar, show m.grammar.ruleId? start = some id from hid, hm.unboundUdt?, hbound, hdepth]
  rw [heq] at hseen hdata haudit hsound
  rw [hfrom, parseFrom_of_audit hm haudit hsound, hdata, hseen, ← hok]

end Matcher
end SignIn
