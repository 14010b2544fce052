import Mathlib.Data.Option.Basic
import SignIn.Proofs.Match.Binding
import SignIn.Proofs.Match.Slices
/-!
# Matches with other callbacks

What a match reports, and what those who watch it see, depends on what the callbacks answer and not on what they note.
So two matchers of one grammar whose callbacks answer alike (`Matcher.Alike`) report the same, and a callback that leaves
every phrase as it is may as well be left out (`Matcher.Alike.parseWith`).

One use of this is to audit a matcher: `Matcher.audit` has the same callbacks, which now note beside their own data
whether each of their calls so far met a demand.
-/
namespace SignIn

variable {D E σ : Type}

/-! ## Callbacks that answer alike -/

namespace Callback

/-- **Two callbacks answer alike** on data that are related, and keep the data related. -/
def Alike (Q : D → E → Prop) (f : Callback D) (g : Callback E) : Prop :=
  ∀ p input o d e, Q d e → (f p input o d).1 = (g p input o e).1 ∧ Q (f p input o d).2 (g p input o e).2

/-- **A callback that leaves every phrase as it is,** and keeps its data related to what others have. -/
def Idle (Q : D → E → Prop) (f : Callback D) : Prop :=
  ∀ p input o d e, Q d e → (f p input o d).1 = p ∧ Q (f p input o d).2 e

end Callback

/-- **Two matchers of one grammar that count alike and whose callbacks answer alike.**  An idle callback of a rule may be
left out; a terminal is nothing without its callback. -/
structure Matcher.Alike (Q : D → E → Prop) (m : Matcher D) (m' : Matcher E) : Prop where
  grammar : m'.grammar = m.grammar
  counter : m'.counter = m.counter
  rule : ∀ id, Option.Rel (Callback.Alike Q) (m.ruleCallback? id) (m'.ruleCallback? id) ∨
    ∃ f, m.ruleCallback? id = some f ∧ m'.ruleCallback? id = none ∧ f.Idle Q
  udt : ∀ id, Option.Rel (Callback.Alike Q) (m.udtCallback? id) (m'.udtCallback? id)

/-- **Runs that are alike** but for their data, which are related. -/
structure Run.Alike (Q : D → E → Prop) (r : Run D σ) (t : Run E σ) : Prop where
  data : Q r.data t.data
  seen : r.seen = t.seen
  lookahead : r.lookahead = t.lookahead
  depth : r.depth = t.depth
  deepest : r.deepest = t.deepest
  hits : r.hits = t.hits
  reach : r.reach = t.reach

namespace Engine

open Outcome (Agree)

variable {Q : D → E → Prop} {s : Setting D σ} {s' : Setting E σ}

theorem lifts_alike : Lifts (@Run.Alike D E σ Q) where
  raise h := ⟨h.data, h.seen, congrArg (· + 1) h.lookahead, h.depth, h.deepest, h.hits, h.reach⟩
  lower h := ⟨h.data, h.seen, congrArg (· - 1) h.lookahead, h.depth, h.deepest, h.hits, h.reach⟩

theorem enter_alike (hw : s'.watch = s.watch) (op : Opcode) (o : Nat) {r : Run D σ} {t : Run E σ} (hr : r.Alike Q t) :
    (enter s op o r).Alike Q (enter s' op o t) where
  data := hr.data
  seen := by simp only [enter, hw, hr.seen, hr.lookahead]
  lookahead := hr.lookahead
  depth := congrArg (· + 1) hr.depth
  deepest := by simp only [enter, hr.deepest, hr.depth]
  hits := congrArg (· + 1) hr.hits
  reach := hr.reach

theorem leave_alike (hw : s'.watch = s.watch) (op : Opcode) (o : Nat) (p : Phrase) (observed : Bool) {r : Run D σ}
    {t : Run E σ} (hr : r.Alike Q t) : (leave s op o p observed r).Alike Q (leave s' op o p observed t) where
  data := hr.data
  seen := by simp only [leave, hw, hr.seen]
  lookahead := hr.lookahead
  depth := congrArg (· - 1) hr.depth
  deepest := hr.deepest
  hits := hr.hits
  reach := by simp only [leave, hr.reach]

/-- Callbacks that answer alike are asked alike. -/
theorem ask_alike (hi : s'.input = s.input) {o : Nat} (ho : o ≤ s.input.size) {f : Callback D} {g : Callback E}
    (h : f.Alike Q g) (name : Text) (descending : Bool) (p : Phrase) {r : Run D σ} {t : Run E σ} (hr : r.Alike Q t) :
    Agree False (fun q => (q.state = .active ∧ descending = true) ∨ q.Fits s.input.size o) (Run.Alike Q) (Run.Alike Q)
      (ask s f name descending p o r) (ask s' g name descending p o t) := by
  obtain ⟨hphrase, hdata⟩ := h p s.input o r.data t.data hr.data
  have hr' : ({ r with data := (f p s.input o r.data).2 } : Run D σ).Alike Q
      { t with data := (g p s.input o t.data).2 } := { hr with data := hdata }
  unfold ask
  simp only [hi, Nat.not_lt.2 ho, if_false, ← hphrase]
  split
  · rename_i q hq
    exact .ended (settle_eq_ok ho hq) hr'
  · exact .broken hr'

theorem ask_alike_decided (hi : s'.input = s.input) {o : Nat} (ho : o ≤ s.input.size) {f : Callback D} {g : Callback E}
    (h : f.Alike Q g) (name : Text) (p : Phrase) {r : Run D σ} {t : Run E σ} (hr : r.Alike Q t) :
    Agree False (Phrase.Fits s.input.size o) (Run.Alike Q) (Run.Alike Q) (ask s f name false p o r)
      (ask s' g name false p o t) :=
  (ask_alike hi ho h name false p hr).mono fun _ h => h.resolve_left fun h => by cases h.2

/-- What is settled stays as it is when it is settled again. -/
theorem settle_of_fits {size o : Nat} (name : Text) (descending : Bool) {p : Phrase} (hp : p.Fits size o) :
    settle name (size - o) descending p = .ok p := by
  obtain ⟨⟨hactive, hfilled⟩, hlen⟩ := hp
  obtain ⟨state, n⟩ := p
  have hle : ¬ size - o < n := by
    dsimp only at hlen
    omega
  unfold settle
  rw [if_neg hle]
  cases state <;> simp_all [Phrase.ofLength, Phrase.empty, Phrase.fail]
  omega

/-- An idle callback answers what it was asked. -/
theorem ask_idle {o : Nat} (ho : o ≤ s.input.size) {f : Callback D} (h : f.Idle Q) (name : Text) (descending : Bool)
    {p : Phrase} (hp : settle name (s.input.size - o) descending p = .ok p) {r : Run D σ} {t : Run E σ}
    (hr : r.Alike Q t) : ∃ r' : Run D σ, ask s f name descending p o r = .ended p r' ∧ r'.Alike Q t := by
  obtain ⟨hphrase, hdata⟩ := h p s.input o r.data t.data hr.data
  refine ⟨{ r with data := (f p s.input o r.data).2 }, ?_, { hr with data := hdata }⟩
  unfold ask
  rw [if_neg (Nat.not_lt.2 ho)]
  dsimp only
  rw [hphrase, hp]

/-- Rules are called alike whose callbacks answer alike, or one of which is idle and the other left out. -/
theorem callRule_alike (hm : s.matcher.Alike Q s'.matcher) (hi : s'.input = s.input)
    (hg : s.matcher.grammar.WellFormed) {eval : Evaluator D σ} {eval' : Evaluator E σ} {o : Nat}
    (ho : o ≤ s.input.size)
    (he : ∀ ops, s.matcher.grammar.Code ops → ∀ r t, Run.Alike Q r t →
      Agree False (Phrase.Fits s.input.size o) (Run.Alike Q) (Run.Alike Q) (eval ops 0 o r) (eval' ops 0 o t))
    {id : RuleId} (hid : id.index < s.matcher.grammar.rules.size) (r : Run D σ) (t : Run E σ) (hr : r.Alike Q t) :
    Agree False (Phrase.Fits s.input.size o) (Run.Alike Q) (Run.Alike Q) (callRule s eval id o r)
      (callRule s' eval' id o t) := by
  unfold callRule
  have hrule := Array.getElem?_eq_getElem hid
  have hcode := hg _ _ hrule
  simp only [hm.grammar, hrule]
  generalize s.matcher.grammar.rules[id.index] = rule at hcode
  rcases hm.rule id with hrel | ⟨f, hf, hnone, hidle⟩
  · generalize s.matcher.ruleCallback? id = f? at hrel ⊢
    generalize s'.matcher.ruleCallback? id = g? at hrel ⊢
    cases hrel with
    | none => exact he _ hcode r t hr
    | some halike =>
      refine (ask_alike hi ho halike _ true .undecided hr).andThen fun p r t hp hr => ?_
      by_cases ha : p.state = .active
      · simp only [ha, if_true]
        exact (he _ hcode r t hr).andThen fun p r t _ hr => ask_alike_decided hi ho halike _ p hr
      · simp only [ha, if_false]
        exact .ended (hp.resolve_left fun h => ha h.1) hr
  · have hdown : settle rule.name (s.input.size - o) true .undecided = .ok .undecided :=
      if_neg (Nat.not_lt.2 (Nat.zero_le _))
    obtain ⟨r₁, hask, hr₁⟩ := ask_idle ho hidle rule.name true hdown hr
    simp only [hf, hnone, hask, Outcome.andThen]
    have hbody := he _ hcode r₁ t hr₁
    -- on the way up the phrase is settled already, and comes back as it is
    cases hx : eval rule.opcodes 0 o r₁ with
    | ended p r₂ =>
      rw [hx] at hbody
      cases hy : eval' rule.opcodes 0 o t <;> rw [hy] at hbody <;> simp only [Agree] at hbody
      obtain ⟨rfl, hp, hr₂⟩ := hbody
      obtain ⟨r₃, hask', hr₃⟩ := ask_idle ho hidle rule.name false (settle_of_fits _ _ hp) hr₂
      show Agree _ _ _ _ (ask s f rule.name false p o r₂) _
      rw [hask']
      exact .ended hp hr₃
    | broken e r₂ =>
      rw [hx] at hbody
      exact hbody
    | stuck =>
      rw [hx] at hbody
      cases hy : eval' rule.opcodes 0 o t <;> rw [hy] at hbody <;> simp only [Agree] at hbody
    | starved =>
      rw [hx] at hbody
      exact hbody

theorem callUdt_alike (hm : s.matcher.Alike Q s'.matcher) (hi : s'.input = s.input) {o : Nat} (ho : o ≤ s.input.size)
    {id : UdtId} (hid : id.index < s.matcher.grammar.udts.size) (r : Run D σ) (t : Run E σ) (hr : r.Alike Q t) :
    Agree False (Phrase.Fits s.input.size o) (Run.Alike Q) (Run.Alike Q) (callUdt s id o r) (callUdt s' id o t) := by
  unfold callUdt
  simp only [hm.grammar, Array.getElem?_eq_getElem hid]
  have hrel := hm.udt id
  generalize s.matcher.udtCallback? id = f? at hrel ⊢
  generalize s'.matcher.udtCallback? id = g? at hrel ⊢
  cases hrel with
  | none => exact .broken hr
  | some halike =>
    refine (ask_alike_decided hi ho halike _ .undecided hr).andThen fun p r t hp hr => ?_
    split
    · exact .broken hr
    · exact .ended hp hr

/-- **Matchers whose callbacks answer alike run alike.** -/
theorem execute_alike (hm : s.matcher.Alike Q s'.matcher) (hi : s'.input = s.input) (hw : s'.watch = s.watch)
    (hg : s.matcher.grammar.WellFormed) :
    ∀ (depth : Nat) (ops : Array Opcode) (i o : Nat) (r : Run D σ) (t : Run E σ), s.matcher.grammar.Code ops →
      i < ops.size → o ≤ s.input.size → r.Alike Q t →
      Agree False (Phrase.Fits s.input.size o) (Run.Alike Q) (Run.Alike Q) (execute s depth ops i o r)
        (execute s' depth ops i o t)
  | 0, _, _, _, _, _, _, _, _, _ => .inr rfl
  | depth + 1, ops, i, o, r, t, hc, hi', ho, hr => by
    have hop := Array.getElem?_eq_getElem hi'
    have ih := execute_alike hm hi hw hg depth
    simp only [execute, step, hop, hr.lookahead]
    refine (apply_agree_of_calls lifts_alike hm.counter (.of_eq hi) (fun ops i n => ih ops i (o + n)) ho
      (fun id hid => ?_) (fun id hid => ?_) hc (hc.within i _ hop) _ _ (enter_alike hw _ o hr)).andThen
      fun p r' t' hp hr' => ?_
    · exact callRule_alike hm hi hg ho (fun ops hc r t hr => ih ops 0 o r t hc hc.root ho hr) hid
    · exact callUdt_alike hm hi ho hid
    · exact .ended hp (leave_alike hw _ o p _ hr')

end Engine

namespace Matcher

variable {Q : D → E → Prop} {m : Matcher D} {m' : Matcher E}

/-- Two matches that report the same and show the same, with data that are related. -/
structure Parsed.Alike (Q : D → E → Prop) (x : Parsed D σ) (y : Parsed E σ) : Prop where
  result : x.result = y.result
  seen : x.seen = y.seen
  data : Q x.data y.data

theorem Alike.parseFrom (h : m.Alike Q m') (hg : m.grammar.WellFormed) (watch : Watcher σ) (depth : Nat) {id : RuleId}
    (hid : id.index < m.grammar.rules.size) (input : Array Char) {d : D} {e : E} (hd : Q d e) (seen : σ) :
    Parsed.Alike Q (m.parseFrom watch depth id input d seen) (m'.parseFrom watch depth id input e seen) := by
  have hagree := @Engine.execute_alike D E σ Q ⟨m, watch, input⟩ ⟨m', watch, input⟩ h rfl rfl hg depth
    #[.rnm id] 0 0 (firstRun watch input d seen) (firstRun watch input e seen) (Grammar.code_rnm hid) Nat.one_pos
    (Nat.zero_le _) ⟨hd, rfl, rfl, rfl, rfl, rfl, rfl⟩
  unfold Matcher.parseFrom
  dsimp only
  generalize Engine.execute ⟨m, watch, input⟩ depth #[.rnm id] 0 0 (firstRun watch input d seen) = x at hagree
  generalize Engine.execute ⟨m', watch, input⟩ depth #[.rnm id] 0 0 (firstRun watch input e seen) = y at hagree
  cases x <;> cases y <;> simp only [Outcome.Agree] at hagree
  · obtain ⟨rfl, -, hr⟩ := hagree
    refine ⟨?_, hr.seen, hr.data⟩
    simp only [Matcher.report, hr.reach, hr.deepest, hr.hits]
  · obtain ⟨rfl, hr⟩ := hagree
    exact ⟨rfl, hr.seen, hr.data⟩
  all_goals first | exact ⟨rfl, rfl, hd⟩ | simp at hagree

theorem Alike.unboundUdt? (h : m.Alike Q m') : m'.unboundUdt? = m.unboundUdt? := by
  have hnone : ∀ id, (m'.udtCallback? id).isNone = (m.udtCallback? id).isNone := by
    intro id
    have hrel := h.udt id
    generalize m.udtCallback? id = f? at hrel
    generalize m'.udtCallback? id = g? at hrel
    cases hrel <;> rfl
  simp only [Matcher.unboundUdt?, h.grammar, hnone]

/-- **Matchers whose callbacks answer alike report the same,** and show the same to those who watch. -/
theorem Alike.parseWith (h : m.Alike Q m') (hg : m.grammar.WellFormed) (watch : Watcher σ) (start : Text)
    (input : Array Char) {d : D} {e : E} (hd : Q d e) (seen : σ) :
    Parsed.Alike Q (m.parseWith watch start input d seen) (m'.parseWith watch start input e seen) := by
  unfold Matcher.parseWith
  rw [h.grammar, h.unboundUdt?]
  split
  · exact ⟨rfl, rfl, hd⟩
  rename_i id hid
  split
  · exact ⟨rfl, rfl, hd⟩
  have hdepth : m'.depthFor input = m.depthFor input := by rw [Matcher.depthFor, h.grammar, Matcher.depthFor]
  rw [hdepth]
  exact h.parseFrom hg watch _ (Grammar.ruleId?_lt hid) input hd seen

theorem udtCallback?_bare (g : Grammar) (counter : Counter) (id : UdtId) :
    (bare g counter : Matcher D).udtCallback? id = none := by
  rw [Matcher.udtCallback?, bare, Array.getElem?_replicate]
  split <;> rfl

/-- A matcher whose callbacks are all idle does as well without them, if it has no terminals. -/
theorem alike_bare (hidle : ∀ id f, m.ruleCallback? id = some f → ∀ p input o d, (f p input o d).1 = p)
    (hudt : ∀ id, m.udtCallback? id = none) :
    m.Alike (fun _ _ => True) (Matcher.bare (D := E) m.grammar m.counter) where
  grammar := grammar_bare m.grammar m.counter
  counter := rfl
  rule id := by
    rw [ruleCallback?_bare]
    cases hf : m.ruleCallback? id with
    | none => exact .inl .none
    | some f => exact .inr ⟨f, rfl, rfl, fun p input o d _ _ => ⟨hidle id f hf p input o d, trivial⟩⟩
  udt id := by
    rw [hudt, udtCallback?_bare]
    exact .none

end Matcher

/-! ## Audits -/

/-- **A callback with an audit:** beside its data it notes whether every call so far met a demand. -/
def Callback.audited (demand : Phrase → Array Char → Nat → D → Bool) (f : Callback D) : Callback (D × Bool) :=
  fun p input o d => ((f p input o d.1).1, (f p input o d.1).2, d.2 && demand p input o d.1)

/-- **A matcher with an audit** of the calls of its rules' callbacks, the demand being found by the rule's name. -/
def Matcher.audit (m : Matcher D) (demand : Text → Phrase → Array Char → Nat → D → Bool) : Matcher (D × Bool) where
  grammar := m.grammar
  onRule := m.onRule.mapIdx fun i f =>
    f.map (Callback.audited (demand ((m.grammar.rules[i]?).elim [] Rule.name)))
  onUdt := m.onUdt.map fun f => f.map (Callback.audited fun _ _ _ _ => true)
  counter := m.counter

theorem Callback.alike_audited (demand : Phrase → Array Char → Nat → D → Bool) (f : Callback D) :
    (f.audited demand).Alike (fun x d => x.1 = d) f := by
  rintro p input o ⟨d, b⟩ _ rfl
  exact ⟨rfl, rfl⟩

theorem Matcher.ruleCallback?_audit (m : Matcher D) (demand : Text → Phrase → Array Char → Nat → D → Bool) (id : RuleId) :
    (m.audit demand).ruleCallback? id = (m.ruleCallback? id).map
      (Callback.audited (demand ((m.grammar.rules[id.index]?).elim [] Rule.name))) := by
  unfold Matcher.ruleCallback? Matcher.audit
  dsimp only
  rw [Array.getElem?_mapIdx]
  cases m.onRule[id.index]? <;> rfl

theorem Matcher.udtCallback?_audit (m : Matcher D) (demand : Text → Phrase → Array Char → Nat → D → Bool) (id : UdtId) :
    (m.audit demand).udtCallback? id = (m.udtCallback? id).map (Callback.audited fun _ _ _ _ => true) := by
  unfold Matcher.udtCallback? Matcher.audit
  dsimp only
  rw [Array.getElem?_map]
  cases m.onUdt[id.index]? <;> rfl

/-- **An audit changes nothing but what it notes.** -/
theorem Matcher.alike_audit (m : Matcher D) (demand : Text → Phrase → Array Char → Nat → D → Bool) :
    (m.audit demand).Alike (fun x d => x.1 = d) m where
  grammar := rfl
  counter := rfl
  rule id := by
    rw [ruleCallback?_audit]
    cases m.ruleCallback? id with
    | none => exact .inl .none
    | some f => exact .inl (.some (f.alike_audited _))
  udt id := by
    rw [udtCallback?_audit]
    cases m.udtCallback? id with
    | none => exact .none
    | some f => exact .some (f.alike_audited _)

end SignIn
