import SignIn.Proofs.Match.Calls
/-!
# The discipline of callbacks

With the calls logged, every operator adds its own to the log, in the order of their derivation (`Engine.execute_calls`).
So a match is broken off exactly by a call that is at fault, and that call is its last; what else a match may be refused
for is found before any callback is asked (`calls_disciplined`).
-/
namespace SignIn

variable {D σ : Type}

namespace Call

variable {g : Grammar} {size : Nat} {c : Call D}

/-- **An answer that is not at fault** fits in normal form, unless it is undecided. -/
theorem fits (h : c.fault? g size = none) (hs : c.answer.1.state ≠ .active) (ho : c.offset ≤ size) :
    c.answer.1.normal.Fits size c.offset := by
  have hle : ¬ size - c.offset < c.answer.1.length := fun hlt => by simp [fault?, hlt] at h
  unfold Phrase.normal
  split
  · contradiction
  · exact Phrase.fits_ofLength.2 (by omega)
  · exact Phrase.fits_empty.2 ho
  · exact Phrase.fits_fail.2 ho

/-- **Only a rule that was asked before its body** may be left undecided. -/
theorem given_of_undecided (h : c.fault? g size = none) (hs : c.answer.1.state = .active) :
    c.given.state = .active ∧ g.udtNamed? c.name = none := by
  by_cases hover : size - c.offset < c.answer.1.length
  · simp [fault?, hover] at h
  · simpa [fault?, hover, hs] using h

/-- **A run comes out of a call** with the answer in normal form, or broken off. -/
def outcome {ρ : Type} (g : Grammar) (size : Nat) (c : Call D) (r : ρ) : Outcome ρ :=
  match c.fault? g size with
  | some e => .broken e r
  | none => .ended c.answer.1.normal r

theorem outcome_yields {ρ : Type} {lax : Prop} {Q : Phrase → ρ → Prop} {B : MatchError → ρ → Prop} {r : ρ}
    (hok : c.fault? g size = none → Q c.answer.1.normal r) (herror : ∀ e, c.fault? g size = some e → B e r) :
    (c.outcome g size r).Yields lax Q B := by
  unfold outcome
  cases h : c.fault? g size with
  | none => exact hok h
  | some e => exact herror e h

end Call

namespace Engine

/-- **A callback asked at a run:** the call as the log would have it, with the answer it gives. -/
def callOf (f : Callback D) (name : Text) (input : Array Char) (p : Phrase) (o : Nat) (r : Run (D × List (Call D)) σ) :
    Call D := ⟨name, p, o, r.data.1, f p input o r.data.1⟩

/-- **The run behind a call:** its data is what the call left, and the log ends with the call. -/
def called (c : Call D) (r : Run (D × List (Call D)) σ) : Run (D × List (Call D)) σ :=
  { r with data := (c.answer.2, r.data.2 ++ [c]) }

/-- **A callback is asked,** the call is added to the log, and the run comes out of it. -/
def asked (m : Matcher D) (input : Array Char) (f : Callback D) (name : Text) (p : Phrase) (o : Nat)
    (r : Run (D × List (Call D)) σ) : Outcome (Run (D × List (Call D)) σ) :=
  (callOf f name input p o r).outcome m.grammar input.size (called (callOf f name input p o r) r)

variable {m : Matcher D} {watch : Watcher σ} {input : Array Char} {code : Array Opcode} {i o : Nat}

theorem ask_logged {f : Callback D} {name : Text} (hname : m.grammar.udtNamed? name = none) (ho : o ≤ input.size)
    {descending : Bool} {p : Phrase} (hdown : descending = decide (p.state = .active)) (r : Run (D × List (Call D)) σ) :
    ask ⟨m.logged, watch, input⟩ (f.logged name) name descending p o r = asked m input f name p o r := by
  subst hdown
  unfold ask asked Call.outcome Call.fault? settle callOf called Callback.logged
  rw [if_neg (Nat.not_lt.2 ho)]
  dsimp only
  generalize f p input o r.data.1 = answer
  by_cases hover : input.size - o < answer.1.length
  · simp [hover]
  · cases hs : answer.1.state <;> by_cases hp : p.state = .active <;> simp [hover, hs, hp, hname, Phrase.normal]

theorem callUdt_logged {f : Callback D} {id : UdtId} {udt : Udt} (hudt : m.grammar.udts[id.index]? = some udt)
    (hf : m.udtCallback? id = some f) (hname : m.grammar.udtNamed? udt.name = some udt) (ho : o ≤ input.size)
    (r : Run (D × List (Call D)) σ) :
    callUdt ⟨m.logged, watch, input⟩ id o r = asked m input f udt.name .undecided o r := by
  have hudt' : m.logged.grammar.udts[id.index]? = some udt := hudt
  unfold callUdt
  simp only [hudt', Matcher.udtCallback?_logged, hf, hudt, Option.elim_some, Option.map_some]
  unfold ask asked Call.outcome Call.fault? settle callOf called Callback.logged
  rw [if_neg (Nat.not_lt.2 ho)]
  dsimp only
  generalize f .undecided input o r.data.1 = answer
  by_cases hover : input.size - o < answer.1.length
  · simp [hover, Outcome.andThen]
  · by_cases hzero : answer.1.length = 0 <;> cases hs : answer.1.state <;> cases hempty : udt.acceptsEmpty <;>
      simp [hover, hzero, hs, hname, hempty, Phrase.normal, Phrase.ofLength, Phrase.empty, Phrase.fail, Outcome.andThen]

/-- **A rule asks its callback around its body:** once more if the first call leaves the body to be run and the body ends. -/
theorem callRule_logged {eval : Evaluator (D × List (Call D)) σ} {f : Callback D} {id : RuleId} {rule : Rule}
    (hrule : m.grammar.rules[id.index]? = some rule) (hf : m.ruleCallback? id = some f)
    (hname : m.grammar.udtNamed? rule.name = none) (ho : o ≤ input.size)
    (hbody : ∀ {r p r'}, eval rule.opcodes 0 o r = .ended p r' → p.state ≠ .active) (r : Run (D × List (Call D)) σ) :
    callRule ⟨m.logged, watch, input⟩ eval id o r =
      if (callOf f rule.name input .undecided o r).Opens m.grammar input.size then
        (eval rule.opcodes 0 o (called (callOf f rule.name input .undecided o r) r)).andThen fun p r' =>
          asked m input f rule.name p o r'
      else asked m input f rule.name .undecided o r := by
  have hrule' : m.logged.grammar.rules[id.index]? = some rule := hrule
  unfold callRule
  simp only [hrule', Matcher.ruleCallback?_logged, hf, hrule, Option.elim_some, Option.map_some]
  rw [ask_logged hname ho (show true = decide (Phrase.undecided.state = .active) from rfl), asked]
  generalize callOf f rule.name input .undecided o r = c
  by_cases hopens : c.Opens m.grammar input.size
  · simp only [hopens, if_true, Call.outcome, hopens.1, Outcome.andThen, Phrase.state_normal_eq_active.2 hopens.2]
    -- the body has decided, so its phrase is asked about on the way up
    cases hout : eval rule.opcodes 0 o (called c r) with
    | ended p r' => exact ask_logged hname ho (decide_eq_false (hbody hout)).symm r'
    | broken e r' => rfl
    | stuck => rfl
    | starved => rfl
  · rw [if_neg hopens, Call.outcome]
    cases hfault : c.fault? m.grammar input.size with
    | some e => rfl
    | none =>
      have hs : c.answer.1.normal.state ≠ .active := fun hs => hopens ⟨hfault, Phrase.state_normal_eq_active.1 hs⟩
      simp only [Outcome.andThen, hs, if_false]

/-! ## All calls of an operator -/

/-- **A run has added to the log** the calls that an operator makes up to where it has come. -/
def Adds (m : Matcher D) (input : Array Char) (code : Array Opcode) (i o : Nat) (r : Run (D × List (Call D)) σ)
    (x : Progress) (r' : Run (D × List (Call D)) σ) : Prop :=
  ∃ calls, m.Calls input code i o x calls ∧ r'.data.2 = r.data.2 ++ calls

/-- **An outcome has added to the log** the calls of an operator that came out so. -/
def YieldsCalls (m : Matcher D) (input : Array Char) (lax : Prop) (code : Array Opcode) (i o : Nat)
    (r : Run (D × List (Call D)) σ) : Outcome (Run (D × List (Call D)) σ) → Prop :=
  Outcome.Yields lax (fun p r' => p.Fits input.size o ∧ Adds m input code i o r (.ended p) r')
    fun e r' => Adds m input code i o r (.broken e) r'

/-- **An evaluator of a rule's code** adds to the log, at each operator and offset, the calls of that operator. -/
def AddsCalls (m : Matcher D) (input : Array Char) (lax : Prop) (eval : Evaluator (D × List (Call D)) σ)
    (code : Array Opcode) : Prop :=
  ∀ i o r, i < code.size → o ≤ input.size → YieldsCalls m input lax code i o r (eval code i o r)

variable {lax : Prop} {eval : Evaluator (D × List (Call D)) σ} {op : Opcode} {r r' : Run (D × List (Call D)) σ}

theorem adds_enter (hop : code[i]? = some op) (hsymbol : op.symbol? = none) : Adds m input code i o r (.running 0) r :=
  ⟨[], .enter hop hsymbol, (List.append_nil _).symm⟩

theorem Adds.leave {n : Nat} {p : Phrase} (h : Adds m input code i o r (.running n) r') (hp : p.Fits input.size o) :
    p.Fits input.size o ∧ Adds m input code i o r (.ended p) r' := by
  obtain ⟨calls, hcalls, hlog⟩ := h
  exact ⟨hp, calls, .leave hp hcalls, hlog⟩

theorem goesOn_adds (he : AddsCalls m input lax eval code) (hop : code[i]? = some op) {child : Nat}
    (hchild : child ∈ op.children) (hlt : child < code.size) :
    GoesOn lax eval code o (fun n r' => o + n ≤ input.size ∧ Adds m input code i o r (.running n) r')
      (fun e r' => Adds m input code i o r (.broken e) r') child := by
  rintro n r' ⟨hle, before, hbefore, hlog⟩
  refine (he child (o + n) r' hlt hle).mono (fun p r'' hp => ?_) fun e r'' hb => ?_
  · obtain ⟨hfits, inner, hinner, hlog'⟩ := hp
    refine ⟨hfits.1, by have := hfits.2; omega, before ++ inner, .operand hop hchild hbefore hinner, ?_⟩
    rw [hlog', hlog, List.append_assoc]
  · obtain ⟨inner, hinner, hlog'⟩ := hb
    refine ⟨before ++ inner, .operandBroken hop hchild hbefore hinner, ?_⟩
    rw [hlog', hlog, List.append_assoc]

theorem adds_of_row {p : Phrase}
    (h : EndsRow (fun n r' => o + n ≤ input.size ∧ Adds m input code i o r (.running n) r') p r') :
    p.Fits input.size o ∧ Adds m input code i o r (.ended p) r' := by
  obtain ⟨n, ⟨hle, hadds⟩, rfl | rfl⟩ := h
  · exact hadds.leave (Phrase.fits_ofLength.2 hle)
  · exact hadds.leave (Phrase.fits_fail.2 (by omega))

theorem lookahead_calls (he : AddsCalls m input lax eval code) (hop : code[i]? = some op) (hsymbol : op.symbol? = none)
    {child : Nat} (hchild : child ∈ op.children) (hlt : child < code.size) (ho : o ≤ input.size) (positive : Bool) :
    YieldsCalls m input lax code i o r (lookahead (eval code child o) positive r) := by
  -- the log does not see that a lookahead is open
  refine Outcome.Yields.andThen
    (goesOn_adds he hop hchild hlt 0 { r with lookahead := r.lookahead + 1 } ⟨ho, adds_enter hop hsymbol⟩)
    fun p r' hp => ?_
  obtain ⟨-, -, hadds⟩ := hp
  refine Adds.leave (show Adds m input code i o r _ r' from hadds) ?_
  split
  · exact Phrase.fits_empty.2 ho
  · exact Phrase.fits_fail.2 ho

/-- **The last call of an operator** decides what comes of it. -/
theorem asked_calls {f : Callback D} {name : Text} {p : Phrase} (before : List (Call D))
    (hlog : r'.data.2 = r.data.2 ++ before)
    (h : m.Calls input code i o ((callOf f name input p o r').settles m.grammar input.size)
      (before ++ [callOf f name input p o r'])) (ho : o ≤ input.size)
    (hs : (callOf f name input p o r').fault? m.grammar input.size = none →
      (callOf f name input p o r').answer.1.state ≠ .active) :
    YieldsCalls m input lax code i o r (asked m input f name p o r') := by
  unfold asked
  have hoffset : (callOf f name input p o r').offset = o := rfl
  generalize callOf f name input p o r' = c at h hs hoffset
  have hlog' : (called c r').data.2 = r.data.2 ++ (before ++ [c]) := by rw [called, hlog, List.append_assoc]
  unfold Call.settles at h
  refine Call.outcome_yields (fun hnone => ?_) fun e hfault => ?_
  · rw [hnone] at h
    subst hoffset
    exact ⟨Call.fits hnone (hs hnone) ho, _, h, hlog'⟩
  · rw [hfault] at h
    exact ⟨_, h, hlog'⟩

section Names

variable (hd : ((m.grammar.rules.toList.map Rule.name ++ m.grammar.udts.toList.map Udt.name).map foldCase).Nodup)
include hd

theorem rnm_calls (hg : m.grammar.WellFormed)
    (he : ∀ code, m.grammar.Code code → AddsCalls m input lax eval code) {id : RuleId}
    (hop : code[i]? = some (.rnm id)) (hid : id.index < m.grammar.rules.size) (ho : o ≤ input.size)
    (r : Run (D × List (Call D)) σ) :
    YieldsCalls m input lax code i o r (callRule ⟨m.logged, watch, input⟩ eval id o r) := by
  have hrule := Array.getElem?_eq_getElem hid
  have hcode := hg _ _ hrule
  have hname := Grammar.udtNamed?_rule hd hrule
  generalize m.grammar.rules[id.index] = rule at hrule hcode hname
  have hbody := fun r => he _ hcode 0 o r hcode.root ho
  cases hf : m.ruleCallback? id with
  | none =>
    have hrule' : m.logged.grammar.rules[id.index]? = some rule := hrule
    unfold callRule
    simp only [hrule', Matcher.ruleCallback?_logged, hf, Option.map_none]
    refine (hbody r).mono (fun p r' hp => ?_) fun e r' hb => ?_
    · obtain ⟨hfits, calls, hcalls, hlog⟩ := hp
      exact ⟨hfits, calls, .body hop hrule hf (by simp) hcalls, hlog⟩
    · obtain ⟨calls, hcalls, hlog⟩ := hb
      exact ⟨calls, .body hop hrule hf (by simp) hcalls, hlog⟩
  | some f =>
    rw [callRule_logged hrule hf hname ho fun hout => ((hbody _).ended hout).1.1.1]
    generalize hc : callOf f rule.name input .undecided o r = c
    have hof : c.Of f input rule.name .undecided o := hc ▸ ⟨rfl, rfl, rfl, rfl⟩
    by_cases hopens : c.Opens m.grammar input.size
    · rw [if_pos hopens]
      refine ((hbody (called c r)).mono (fun _ _ h => h) fun e r' hb => ?_).andThen fun p r' hp => ?_
      · obtain ⟨inner, hinner, hlog⟩ := hb
        exact ⟨c :: inner, .bodyBroken hop hrule hf hof hopens hinner, by rw [hlog, called, List.append_assoc]; rfl⟩
      · obtain ⟨hfits, inner, hinner, hlog⟩ := hp
        refine asked_calls (c :: inner) ?_ (.around hop hrule hf hof hopens hinner hfits ⟨rfl, rfl, rfl, rfl⟩) ho ?_
        · rw [hlog, called, List.append_assoc]
          rfl
        · exact fun hnone hs => hfits.1.1 (Call.given_of_undecided hnone hs).1
    · rw [if_neg hopens]
      refine asked_calls [] (List.append_nil _).symm (.decided hop hrule hf ⟨rfl, rfl, rfl, rfl⟩ (hc ▸ hopens)) ho ?_
      exact fun hnone hs => hopens (hc ▸ ⟨hnone, hs⟩)

theorem udt_calls {id : UdtId} (hop : code[i]? = some (.udt id)) (hid : id.index < m.grammar.udts.size)
    (hbound : m.udtCallback? id ≠ none) (ho : o ≤ input.size) (r : Run (D × List (Call D)) σ) :
    YieldsCalls m input lax code i o r (callUdt ⟨m.logged, watch, input⟩ id o r) := by
  have hudt := Array.getElem?_eq_getElem hid
  have hname := Grammar.udtNamed?_udt hd hudt
  obtain ⟨f, hf⟩ := Option.ne_none_iff_exists'.1 hbound
  rw [callUdt_logged hudt hf hname ho]
  refine asked_calls [] (List.append_nil _).symm (.terminal hop hudt hf ⟨rfl, rfl, rfl, rfl⟩) ho ?_
  intro hnone hs
  have := (Call.given_of_undecided hnone hs).2
  cases hname.symm.trans this

variable (hg : m.grammar.WellFormed) (hbound : ∀ id : UdtId, id.index < m.grammar.udts.size → m.udtCallback? id ≠ none)
include hg hbound

theorem apply_calls (hc : m.grammar.Code code) (he : ∀ code, m.grammar.Code code → AddsCalls m input lax eval code)
    (hop : code[i]? = some op) (ho : o ≤ input.size) (r : Run (D × List (Call D)) σ) :
    YieldsCalls m input lax code i o r (apply ⟨m.logged, watch, input⟩ eval code op o r) := by
  have hwithin := hc.within i op hop
  refine apply_yields ho (fun c hcm => goesOn_adds (he code hc) hop hcm (hwithin.children c hcm).2)
    (fun hsymbol => ⟨ho, adds_enter hop hsymbol⟩) (fun _ _ p r' h => adds_of_row h)
    (fun hsymbol p hp => (adds_enter hop hsymbol).leave hp) (fun c positive hcm => ?_) (fun id hid => ?_) fun id hid => ?_
  · rcases hcm with rfl | rfl <;>
    · have hmem := List.mem_singleton_self c
      exact lookahead_calls (he code hc) hop rfl hmem (hwithin.children c hmem).2 ho positive
  · subst hid
    exact rnm_calls hd hg he hop (hwithin.rule id rfl) ho r
  · subst hid
    exact udt_calls hd hop (hwithin.udt id rfl) (hbound id (hwithin.udt id rfl)) ho r

theorem step_calls (hc : m.grammar.Code code) (he : ∀ code, m.grammar.Code code → AddsCalls m input lax eval code) :
    AddsCalls m input lax (step ⟨m.logged, watch, input⟩ eval) code := by
  intro i o r hi ho
  have hop := Array.getElem?_eq_getElem hi
  unfold step
  simp only [hop]
  -- entering and leaving an operator touch neither data nor log
  refine Outcome.Yields.andThen (apply_calls hd hg hbound hc he hop ho (enter _ code[i] o r)) fun p r' hp => ?_
  exact hp

/-- **Every operator adds its calls to the log,** at every place of every run. -/
theorem execute_calls : ∀ (depth : Nat) {code : Array Opcode}, m.grammar.Code code →
    AddsCalls m input True (execute (σ := σ) ⟨m.logged, watch, input⟩ depth) code
  | 0, _, _ => fun _ _ _ _ _ => trivial
  | depth + 1, _, hc => step_calls hd hg hbound hc fun _ => execute_calls depth

end Names

end Engine

/-! ## The match -/

/-- **The fault of a call** is one of three, and has the name of the rule or the terminal. -/
theorem Call.fault?_named {g : Grammar} {size : Nat} {c : Call D} {e : MatchError} (h : c.fault? g size = some e) :
    (∃ length remaining, e = .phraseOverrun c.name length remaining) ∨ e = .activeReturn c.name ∨ e = .emptyUdt c.name := by
  unfold fault? at h
  dsimp only at h
  split at h
  · cases h
    exact .inl ⟨_, _, rfl⟩
  split at h
  · split at h
    · cases h
    · cases h
      exact .inr (.inl rfl)
  split at h
  · cases h
    exact .inr (.inr rfl)
  · cases h

namespace Matcher

/-- **A match from a rule that keeps the discipline.**  Its log has the calls of the reference to the rule; it is broken off
by an error exactly if a call is at fault, and has that fault; and a call that is at fault is the last one.  A match that
is given up as too deep returns no log. -/
structure Disciplined (m : Matcher D) (id : RuleId) (input : Array Char) (x : Parsed (D × List (Call D)) σ) : Prop where
  ended : ∀ report, x.result = .ok report → ∃ p, report.state = p.state ∧ report.matched = p.length ∧
    m.Calls input #[.rnm id] 0 0 (.ended p) x.data.2
  broken : ∀ e, x.result = .error e → (e = .tooDeep ∧ x.data.2 = []) ∨ m.Calls input #[.rnm id] 0 0 (.broken e) x.data.2
  fault : ∀ e, e ≠ .tooDeep → (x.result = .error e ↔ ∃ c ∈ x.data.2, c.fault? m.grammar input.size = some e)
  last : ∀ c ∈ x.data.2, c.fault? m.grammar input.size ≠ none →
    ∃ before, x.data.2 = before ++ [c] ∧ ∀ b ∈ before, b.fault? m.grammar input.size = none

variable {m : Matcher D} {input : Array Char} {id : RuleId}

theorem disciplined_of_calls {x : Parsed (D × List (Call D)) σ}
    (hended : ∀ report, x.result = .ok report → ∃ p, report.state = p.state ∧ report.matched = p.length ∧
      m.Calls input #[.rnm id] 0 0 (.ended p) x.data.2)
    (hbroken : ∀ e, x.result = .error e →
      (e = .tooDeep ∧ x.data.2 = []) ∨ m.Calls input #[.rnm id] 0 0 (.broken e) x.data.2) : m.Disciplined id input x := by
  -- a call that is at fault tells how the match came out, and is the last one
  have hcall : ∀ c ∈ x.data.2, ∀ e, c.fault? m.grammar input.size = some e → x.result = .error e ∧
      ∃ before, x.data.2 = before ++ [c] ∧ ∀ b ∈ before, b.fault? m.grammar input.size = none := by
    intro c hc e he
    cases hx : x.result with
    | ok report =>
      obtain ⟨p, -, -, hcalls⟩ := hended report hx
      cases (hcalls.blames.last hc he).1
    | error e' =>
      rcases hbroken e' hx with ⟨-, hnil⟩ | hcalls
      · rw [hnil] at hc
        cases hc
      · obtain ⟨heq, hlast⟩ := hcalls.blames.last hc he
        cases heq
        exact ⟨rfl, hlast⟩
  refine ⟨hended, hbroken, fun e hne => ⟨fun hx => ?_, fun ⟨c, hc, he⟩ => (hcall c hc e he).1⟩, fun c hc hne => ?_⟩
  · obtain ⟨before, c, hlog, -, he⟩ := ((hbroken e hx).resolve_left fun h => hne h.1).blames
    exact ⟨c, by simp [hlog], he⟩
  · obtain ⟨e, he⟩ := Option.ne_none_iff_exists'.1 hne
    exact (hcall c hc e he).2

theorem disciplined_parseFrom (hg : m.grammar.WellFormed)
    (hd : ((m.grammar.rules.toList.map Rule.name ++ m.grammar.udts.toList.map Udt.name).map foldCase).Nodup)
    (hbound : ∀ id : UdtId, id.index < m.grammar.udts.size → m.udtCallback? id ≠ none) (watch : Watcher σ) (depth : Nat)
    (hid : id.index < m.grammar.rules.size) (data : D) (seen : σ) :
    m.Disciplined id input (m.logged.parseFrom watch depth id input (data, []) seen) := by
  have hcalls : Engine.YieldsCalls m input True #[.rnm id] 0 0 (firstRun watch input (data, []) seen)
      (Engine.execute ⟨m.logged, watch, input⟩ depth #[.rnm id] 0 0 (firstRun watch input (data, []) seen)) :=
    Engine.execute_calls hd hg hbound depth (Grammar.code_rnm hid) 0 0 _ Nat.one_pos (Nat.zero_le _)
  unfold parseFrom
  dsimp only
  cases hout : Engine.execute ⟨m.logged, watch, input⟩ depth #[.rnm id] 0 0 (firstRun watch input (data, []) seen) with
  | ended p r =>
    rw [hout] at hcalls
    obtain ⟨-, calls, hcalls, hlog⟩ := hcalls
    refine disciplined_of_calls (fun report h => ?_) fun e h => (by cases h)
    cases h
    refine ⟨p, rfl, rfl, ?_⟩
    rw [hlog]
    exact hcalls
  | broken e r =>
    rw [hout] at hcalls
    obtain ⟨calls, hcalls, hlog⟩ := hcalls
    refine disciplined_of_calls (fun report h => (by cases h)) fun e' h => .inr ?_
    cases h
    rw [hlog]
    exact hcalls
  | stuck =>
    rw [hout] at hcalls
    exact hcalls.elim
  | starved => exact disciplined_of_calls (fun report h => (by cases h)) fun e h => .inl (by cases h; exact ⟨rfl, rfl⟩)

theorem parseWith_logged_unknown {start : Text} (hid : m.grammar.ruleId? start = none) (watch : Watcher σ) (data : D)
    (seen : σ) : m.logged.parseWith watch start input (data, []) seen =
      ⟨.error (.unknownStartRule start), (data, []), seen⟩ := by
  have hid' : m.logged.grammar.ruleId? start = none := hid
  unfold parseWith
  simp only [hid']

section Setup

variable {start : Text} (hid : m.grammar.ruleId? start = some id) (watch : Watcher σ) (data : D) (seen : σ)
include hid

theorem parseWith_logged_begun (hnone : m.unboundUdt? = none) :
    m.logged.parseWith watch start input (data, []) seen =
      m.logged.parseFrom watch (m.depthFor input) id input (data, []) seen := by
  have hunbound : m.logged.unboundUdt? = none := hnone ▸ m.alike_logged.unboundUdt?.symm
  have hid' : m.logged.grammar.ruleId? start = some id := hid
  unfold parseWith
  simp only [hid', hunbound]
  rfl

/-- **A match that is refused for a terminal** has asked nobody. -/
theorem parseWith_logged_unbound {name : Text} (hname : m.unboundUdt? = some name) :
    m.logged.parseWith watch start input (data, []) seen = ⟨.error (.unboundUdt name), (data, []), seen⟩ := by
  have hunbound : m.logged.unboundUdt? = some name := hname ▸ m.alike_logged.unboundUdt?.symm
  have hid' : m.logged.grammar.ruleId? start = some id := hid
  unfold parseWith
  simp only [hid', hunbound]

end Setup

end Matcher

/-- **Callbacks are asked with discipline.**  For every grammar, callbacks and input, the calls being logged:

A match is refused for a terminal without a callback exactly if there is one, the first of them being named, and then no
callback was asked.  Any other match keeps the discipline, however deep it may go.  At every place of every run, an
operator adds to the log the calls of its derivation.  A rule with a callback asks it on the way down about an undecided
phrase of length 0; if that leaves the body to be run, and the body ends, it asks once more, about the phrase of the body,
which fits; and never else.  A terminal asks its callback once, about an undecided phrase. -/
theorem calls_disciplined {D : Type} {rules : List (Text × List Opcode)} {udts : List (Text × Bool)} {m : Matcher D}
    (htables : Grammar.ofTables rules udts = .ok m.grammar) (start : Text) (input : Array Char) (data : D) :
    (∀ {σ : Type} (w : Watcher σ) (x : σ), let y := m.logged.parseWith w start input (data, []) x
      Matcher.Parsed.Alike (fun d e => d.1 = e) y (m.parseWith w start input data x) ∧
      (∀ name, y.result = .error (.unboundUdt name) ↔ m.grammar.ruleId? start ≠ none ∧
        ∃ id udt, m.grammar.udts[UdtId.index id]? = some udt ∧ udt.name = name ∧ m.udtCallback? id = none ∧
          ∀ j < id.index, m.udtCallback? ⟨j⟩ ≠ none) ∧
      (∀ name, y.result = .error (.unboundUdt name) → y.data.2 = []) ∧
      ∀ id, m.grammar.ruleId? start = some id → m.unboundUdt? = none → m.Disciplined id input y) ∧
    ∀ id, m.grammar.ruleId? start = some id → m.unboundUdt? = none → ∀ {σ : Type} (w : Watcher σ) (depth : Nat),
      (∀ x, m.Disciplined id input (m.logged.parseFrom w depth id input (data, []) x)) ∧
      let s : Setting (D × List (Call D)) σ := ⟨m.logged, w, input⟩
      (∀ {code : Array Opcode} {i o : Nat} r, m.grammar.Code code → i < code.size → o ≤ input.size →
        Engine.YieldsCalls m input True code i o r (Engine.execute s depth code i o r)) ∧
      (∀ {id : RuleId} {rule : Rule} {f : Callback D} {o : Nat} r, m.grammar.rules[id.index]? = some rule →
        m.ruleCallback? id = some f → o ≤ input.size → Engine.callRule s (Engine.execute s depth) id o r =
          if (Engine.callOf f rule.name input .undecided o r).Opens m.grammar input.size then
            (Engine.execute s depth rule.opcodes 0 o (Engine.called (Engine.callOf f rule.name input .undecided o r) r)).andThen
              fun p r' => Engine.asked m input f rule.name p o r'
          else Engine.asked m input f rule.name .undecided o r) ∧
      ∀ {id : UdtId} {udt : Udt} {f : Callback D} {o : Nat} (r : Run (D × List (Call D)) σ),
        m.grammar.udts[id.index]? = some udt → m.udtCallback? id = some f → o ≤ input.size →
        Engine.callUdt s id o r = Engine.asked m input f udt.name .undecided o r := by
  have hg := Grammar.wellFormed_ofTables htables
  have hd := Grammar.distinct_ofTables htables
  have hlogged : m.logged.grammar.WellFormed := hg
  have hbegun : ∀ {id : RuleId}, m.grammar.ruleId? start = some id → m.unboundUdt? = none → ∀ {σ : Type} (w : Watcher σ) x,
      m.Disciplined id input (m.logged.parseWith w start input (data, []) x) := by
    intro id hid hnone σ w x
    rw [Matcher.parseWith_logged_begun hid w data x hnone]
    exact Matcher.disciplined_parseFrom hg hd (fun _ => Matcher.udtCallback?_ne_none hnone) w _ (Grammar.ruleId?_lt hid)
      data x
  have hunbound : ∀ {name : Text} {σ : Type} (w : Watcher σ) x,
      (m.logged.parseWith w start input (data, []) x).result = .error (.unboundUdt name) →
        m.grammar.ruleId? start ≠ none ∧ m.unboundUdt? = some name := by
    intro name σ w x h
    cases hid : m.grammar.ruleId? start with
    | none =>
      rw [Matcher.parseWith_logged_unknown hid] at h
      cases h
    | some id =>
      cases hname : m.unboundUdt? with
      | none =>
        -- the errors of a match that began are faults of calls
        obtain ⟨c, -, hfault⟩ := ((hbegun hid hname w x).fault _ (by simp)).1 h
        rcases Call.fault?_named hfault with ⟨_, _, he⟩ | he | he <;> cases he
      | some name' =>
        rw [Matcher.parseWith_logged_unbound hid w data x hname] at h
        cases h
        exact ⟨by simp, rfl⟩
  refine ⟨fun {σ} w x => ⟨m.alike_logged.parseWith hlogged w start input rfl x, fun name => ?_, fun name h => ?_,
    fun id hid hnone => hbegun hid hnone w x⟩, fun id hid hnone {σ} w depth => ⟨fun x => ?_, fun {code i o} r hc hi ho => ?_,
    fun {id' rule f o} r hrule hf ho => ?_, fun {id' udt f o} r hudt hf ho => ?_⟩⟩
  · rw [← Matcher.unboundUdt?_eq_some]
    refine ⟨hunbound w x, fun ⟨hstart, hname⟩ => ?_⟩
    obtain ⟨id, hid⟩ := Option.ne_none_iff_exists'.1 hstart
    rw [Matcher.parseWith_logged_unbound hid w data x hname]
  · obtain ⟨hstart, hname⟩ := hunbound w x h
    obtain ⟨id, hid⟩ := Option.ne_none_iff_exists'.1 hstart
    rw [Matcher.parseWith_logged_unbound hid w data x hname]
  · exact Matcher.disciplined_parseFrom hg hd (fun _ => Matcher.udtCallback?_ne_none hnone) w depth
      (Grammar.ruleId?_lt hid) data x
  · exact Engine.execute_calls hd hg (fun _ => Matcher.udtCallback?_ne_none hnone) depth hc i o r hi ho
  · refine Engine.callRule_logged hrule hf (Grammar.udtNamed?_rule hd hrule) ho (fun {r p r'} hout => ?_) r
    have hcode := hg _ _ hrule
    exact ((Engine.execute_calls hd hg (fun _ => Matcher.udtCallback?_ne_none hnone) depth hcode 0 o r hcode.root
      ho).ended hout).1.1.1
  · exact Engine.callUdt_logged hudt hf (Grammar.udtNamed?_udt hd hudt) ho r

/-- Tables of a rule that repeats a terminal. -/
def greedyTables : List (Text × List Opcode) × List (Text × Bool) :=
  ([("greedy", [.rep 0 none 1, .udt ⟨0⟩])], [("letter", false)])

/-- The matcher of a rule whose terminal claims one character first and then five; both callbacks count their calls. -/
def greedyMatcher : Matcher Nat where
  grammar := ⟨#[⟨"greedy", #[.rep 0 none 1, .udt ⟨0⟩]⟩], #[⟨"letter", false⟩]⟩
  onRule := #[some fun p _ _ d => (p, d + 1)]
  onUdt := #[some fun _ _ o d => (⟨.matched, if o = 0 then 1 else 5⟩, d + 1)]

theorem calls_disciplined_greedy :
    Grammar.ofTables greedyTables.1 greedyTables.2 = .ok greedyMatcher.grammar ∧
    greedyMatcher.grammar.ruleId? "greedy" = some ⟨0⟩ ∧ greedyMatcher.unboundUdt? = none ∧
    let y := greedyMatcher.logged.parseWith .silent "greedy" #['a', 'b'] (0, []) ()
    y.result = .error (.phraseOverrun "letter" 5 1) ∧ y.data.2.length = 3 ∧
      ∃ c ∈ y.data.2, c.fault? greedyMatcher.grammar 2 = some (.phraseOverrun "letter" 5 1) :=
  have hg : Grammar.ofTables greedyTables.1 greedyTables.2 = .ok greedyMatcher.grammar := rfl
  have hid : greedyMatcher.grammar.ruleId? "greedy" = some ⟨0⟩ := rfl
  have hnone : greedyMatcher.unboundUdt? = none := rfl
  have h := ((calls_disciplined hg "greedy" #['a', 'b'] 0).1 Watcher.silent ()).2.2.2 ⟨0⟩ hid hnone
  ⟨hg, hid, hnone, rfl, rfl, (h.fault _ (by decide)).1 rfl⟩

end SignIn
