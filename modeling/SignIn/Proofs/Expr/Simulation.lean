import SignIn.Proofs.Expr.Layout
import SignIn.Proofs.Match.Step
/-!
# The engine does what the expressions say

On opcodes that hold an expression, the engine comes out at every depth as the expression does, with the same phrase
and the same data of the caller's, or broken off by the same error (`execute_agree_run`).  So a match from a rule is
the outcome of that rule's name, and whatever is shown of outcomes of expressions holds of matches
(`Matcher.run_of_parseFrom`, `Matcher.parseFrom_of_run`).
-/
namespace SignIn

theorem Names.Laid.lt {names : Names} {ops : Array Opcode} {i : Nat} {e : Expr} (h : names.Laid ops i e) :
    i < ops.size := by
  cases h <;> exact (Array.getElem?_eq_some_iff.1 ‹_›).1

namespace Engine

open Outcome (Agree)

variable {D σ : Type} {s : Setting D σ} {l : Lexicon D}

/-- A run carries these data. -/
def Carries (r : Run D σ) (d : D) : Prop := r.data = d

theorem ask_agree_ask {o : Nat} (ho : o ≤ s.input.size) (f : Callback D) (name : Text) (descending : Bool) (p : Phrase)
    (r : Run D σ) :
    Agree False (fun q => (q.state = .active ∧ descending = true) ∨ q.Fits s.input.size o) Carries Carries
      (ask s f name descending p o r) (Lexicon.ask s.input f name descending p o r.data) := by
  unfold ask Lexicon.ask
  simp only [Nat.not_lt.2 ho, if_false]
  cases hq : settle name (s.input.size - o) descending (f p s.input o r.data).1 with
  | ok q => exact ⟨rfl, settle_eq_ok ho hq, rfl⟩
  | error e => exact ⟨rfl, rfl⟩

theorem ask_agree_ask_decided {o : Nat} (ho : o ≤ s.input.size) (f : Callback D) (name : Text) (p : Phrase)
    (r : Run D σ) :
    Agree False (Phrase.Fits s.input.size o) Carries Carries (ask s f name false p o r)
      (Lexicon.ask s.input f name false p o r.data) :=
  (ask_agree_ask ho f name false p r).mono fun _ h => h.resolve_left fun h => by cases h.2

theorem callRule_agree_callRule (hl : l.HeldBy s.matcher) {eval : Evaluator D σ} {eval' : Expr → Nat → D → Outcome D}
    {o : Nat} (ho : o ≤ s.input.size)
    (he : ∀ ops e r, l.names.Laid ops 0 e →
      Agree False (Phrase.Fits s.input.size o) Carries Carries (eval ops 0 o r) (eval' e o r.data))
    {id : RuleId} (hid : id.index < l.rules.length) (r : Run D σ) :
    Agree False (Phrase.Fits s.input.size o) Carries Carries (callRule s eval id o r)
      (l.callRule s.input eval' id o r.data) := by
  unfold callRule Lexicon.callRule
  have hrule := List.getElem?_eq_getElem hid
  obtain ⟨ops, hops, hlaid⟩ := hl.rule id _ _ hrule
  simp only [hops, hrule, hl.onRule]
  cases l.onRule id with
  | none => exact he _ _ r hlaid
  | some f =>
    refine (ask_agree_ask ho f _ true .undecided r).andThen ?_
    rintro p r _ hp rfl
    by_cases ha : p.state = .active
    · simp only [ha, if_true]
      refine (he _ _ r hlaid).andThen ?_
      rintro p r _ - rfl
      exact ask_agree_ask_decided ho f _ p r
    · simp only [ha, if_false]
      exact .ended (hp.resolve_left fun h => ha h.1) rfl

theorem callUdt_agree_callUdt (hl : l.HeldBy s.matcher) {o : Nat} (ho : o ≤ s.input.size) {id : UdtId}
    (hid : id.index < l.udts.length) (r : Run D σ) :
    Agree False (Phrase.Fits s.input.size o) Carries Carries (callUdt s id o r) (l.callUdt s.input id o r.data) := by
  unfold callUdt Lexicon.callUdt
  simp only [hl.udt, List.getElem?_eq_getElem hid, Option.map_some, hl.onUdt]
  cases l.onUdt id with
  | none => exact .broken rfl
  | some f =>
    refine (ask_agree_ask_decided ho f _ .undecided r).andThen ?_
    rintro p r _ hp rfl
    split
    · exact .broken rfl
    · exact .ended hp rfl

theorem lookahead_agree_peek {o : Nat} (ho : o ≤ s.input.size) {eval : Run D σ → Outcome (Run D σ)}
    {eval' : D → Outcome D} (h : ∀ r, Agree False (Phrase.Fits s.input.size o) Carries Carries (eval r) (eval' r.data))
    (positive : Bool) (r : Run D σ) :
    Agree False (Phrase.Fits s.input.size o) Carries Carries (lookahead eval positive r)
      (Lexicon.peek (eval' r.data) positive) := by
  refine (h { r with lookahead := r.lookahead + 1 }).andThen ?_
  rintro p r _ - rfl
  refine .ended ?_ rfl
  split
  · exact Phrase.fits_empty.2 ho
  · exact Phrase.fits_fail.2 ho

/-- **An opcode does what the operator of its expression does,** if their operands do. -/
theorem apply_agree_apply (hl : l.HeldBy s.matcher) {eval : Evaluator D σ} {eval' : Expr → Nat → D → Outcome D}
    (he : ∀ ops i e o r, l.names.Laid ops i e → o ≤ s.input.size →
      Agree False (Phrase.Fits s.input.size o) Carries Carries (eval ops i o r) (eval' e o r.data))
    {ops : Array Opcode} {i : Nat} {op : Opcode} {e : Expr} (hop : ops[i]? = some op) (hlaid : l.names.Laid ops i e)
    {o : Nat} (ho : o ≤ s.input.size) (r : Run D σ) :
    Agree False (Phrase.Fits s.input.size o) Carries Carries (apply s eval ops op o r)
      (l.apply s.input eval' e o r.data) := by
  have hT := Phrase.tiling_fits s.input.size
  have h0 := Phrase.fits_ofLength (n := 0).2 ho
  have hrule : ∀ {id} (r : Run D σ), id.index < l.rules.length →
      Agree False (Phrase.Fits s.input.size o) Carries Carries (callRule s eval id o r)
        (l.callRule s.input eval' id o r.data) :=
    fun r hid => callRule_agree_callRule hl ho (fun ops e r hlaid => he ops 0 e o r hlaid ho) hid r
  cases hlaid with
  | @alt _ children items here below =>
    cases hop.symm.trans here
    refine choice_agree (Phrase.fits_fail.2 ho) (below.imp fun c e hlaid r d hr => ?_) r r.data rfl
    cases hr
    exact he ops c e o r hlaid ho
  | @cat _ children items here below =>
    cases hop.symm.trans here
    refine sequence_agree hT (below.imp fun c e hlaid n r d hn hr => ?_) 0 r r.data h0 rfl
    cases hr
    exact he ops c e (o + n) r hlaid (Phrase.fits_empty.1 hn)
  | @rep _ min max child item here below =>
    cases hop.symm.trans here
    by_cases hz : max = some 0
    · simp only [apply, Lexicon.apply, hz, if_true]
      exact .ended (Phrase.fits_empty.2 ho) rfl
    · simp only [apply, Lexicon.apply, hz, if_false]
      rw [hl.counter]
      refine repetition_agree hT (fun n r d hn hr => ?_) _ 0 0 r r.data h0 rfl
      cases hr
      exact he ops child item (o + n) r below (Phrase.fits_empty.1 hn)
  | @rnm _ id name here found =>
    cases hop.symm.trans here
    simp only [apply, Lexicon.apply, Lexicon.callName, show l.resolve name = _ from found]
    exact hrule r (by simpa [Lexicon.names] using resolveName_rule_lt found)
  | @rnmUdt _ id name here found =>
    cases hop.symm.trans here
    simp only [apply, Lexicon.apply, Lexicon.callName, show l.resolve name = _ from found]
    exact callUdt_agree_callUdt hl ho (by simpa [Lexicon.names] using resolveName_udt_lt found) r
  | @udt _ id name here found =>
    cases hop.symm.trans here
    simp only [apply, Lexicon.apply, show l.resolve name = _ from found]
    exact callUdt_agree_callUdt hl ho (by simpa [Lexicon.names] using resolveName_udt_lt found) r
  | trg here =>
    cases hop.symm.trans here
    exact .ended (range_fits _ _ _ ho) rfl
  | tbs here =>
    cases hop.symm.trans here
    exact .ended (literal_fits _ _ ho) rfl
  | tls here =>
    cases hop.symm.trans here
    exact .ended (foldedLiteral_fits _ _ ho) rfl
  | @and _ child item here below =>
    cases hop.symm.trans here
    exact lookahead_agree_peek ho (fun r => he ops child item o r below ho) true r
  | @not _ child item here below =>
    cases hop.symm.trans here
    exact lookahead_agree_peek ho (fun r => he ops child item o r below ho) false r

/-- **The engine does what the expression does,** to the same depth. -/
theorem execute_agree_run (hl : l.HeldBy s.matcher) :
    ∀ (depth : Nat) (ops : Array Opcode) (i : Nat) (e : Expr) (o : Nat) (r : Run D σ), l.names.Laid ops i e →
      o ≤ s.input.size →
      Agree False (Phrase.Fits s.input.size o) Carries Carries (execute s depth ops i o r)
        (l.run s.input depth e o r.data)
  | 0, _, _, _, _, _, _, _ => .inr rfl
  | depth + 1, ops, i, e, o, r, hlaid, ho => by
    have hi := hlaid.lt
    have hop := Array.getElem?_eq_getElem hi
    simp only [execute, step, hop]
    exact (apply_agree_apply hl (execute_agree_run hl depth) hop hlaid ho (enter s ops[i] o r)).touch
      fun p r d hr => hr

end Engine

/-! ## Matches and outcomes -/

namespace Matcher

open Outcome (Agree)

variable {D σ : Type} {m : Matcher D} {l : Lexicon D} {watch : Watcher σ} {input : Array Char} {start : Text}
  {id : RuleId} {data : D} {seen : σ}

theorem first_agree_run (watch : Watcher σ) (input : Array Char) (data : D) (seen : σ) (hl : l.HeldBy m)
    (hid : l.resolve start = some (.rule id)) (depth : Nat) :
    Agree False (Phrase.Fits input.size 0) Engine.Carries Engine.Carries
      (Engine.execute ⟨m, watch, input⟩ depth #[.rnm id] 0 0 (firstRun watch input data seen))
      (l.run input depth (.rnm start) 0 data) :=
  Engine.execute_agree_run (s := ⟨m, watch, input⟩) hl depth _ 0 (.rnm start) 0 _ (.rnm rfl hid) (Nat.zero_le _)

/-- **What a match reports is the outcome of its start rule.** -/
theorem run_of_parseFrom (hl : l.HeldBy m) (hid : l.resolve start = some (.rule id)) {depth : Nat}
    {report : MatchReport} (h : (m.parseFrom watch depth id input data seen).result = .ok report) :
    ∃ p, l.run input depth (.rnm start) 0 data = .ended p (m.parseFrom watch depth id input data seen).data ∧
      p.Fits input.size 0 ∧ report.success = (p.isSuccess && decide (p.length = input.size)) ∧
      report.state = p.state ∧ report.matched = p.length := by
  have ha := first_agree_run watch input data seen hl hid depth
  simp only [parseFrom] at h ⊢
  cases hx : Engine.execute ⟨m, watch, input⟩ depth #[.rnm id] 0 0 (firstRun watch input data seen) with
  | ended p r =>
    simp only [hx] at h ha ⊢
    cases hrun : l.run input depth (.rnm start) 0 data <;> rw [hrun] at ha <;> simp only [Agree] at ha
    obtain ⟨rfl, hp, rfl⟩ := ha
    cases h
    exact ⟨p, rfl, hp, rfl, rfl, rfl⟩
  | broken e r => simp only [hx] at h; cases h
  | stuck => simp only [hx] at h; cases h
  | starved => simp only [hx] at h; cases h

/-- **A match whose start rule comes to a phrase reports it.** -/
theorem parseFrom_of_run (watch : Watcher σ) (seen : σ) (hl : l.HeldBy m) (hid : l.resolve start = some (.rule id))
    {depth : Nat} {p : Phrase} {d : D}
    (h : l.run input depth (.rnm start) 0 data = .ended p d) :
    ∃ report, (m.parseFrom watch depth id input data seen).result = .ok report ∧
      (m.parseFrom watch depth id input data seen).data = d ∧
      report.success = (p.isSuccess && decide (p.length = input.size)) ∧ report.state = p.state ∧
      report.matched = p.length := by
  have ha := first_agree_run watch input data seen hl hid depth
  rw [h] at ha
  simp only [parseFrom]
  cases hx : Engine.execute ⟨m, watch, input⟩ depth #[.rnm id] 0 0 (firstRun watch input data seen) <;>
    rw [hx] at ha <;> simp only [Agree] at ha
  · obtain ⟨rfl, -, rfl⟩ := ha
    exact ⟨_, rfl, rfl, rfl, rfl, rfl⟩
  · simp at ha

end Matcher
end SignIn
