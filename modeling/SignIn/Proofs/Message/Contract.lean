import SignIn.Message.Watch
import SignIn.Proofs.Message.Faults
import SignIn.Proofs.Uri.Demands
/-!
# The bundled grammar keeps the contract of the engine

The only thing that can go wrong in a match of the bundled grammar is the name of the start rule.  The structural
callbacks are idle, so they change nothing of what a match reports, and what they note of a text that is accepted is
complete.  The audits of both sets of callbacks find nothing, from whichever rule a match begins.
-/
namespace SignIn

variable {D σ : Type} {m : Matcher D} {input : Array Char} {data : D} {actions : List (Text × Callback D)}

/-! ## Errors -/

/-- **A match fails only for its start rule,** if the callbacks judge. -/
theorem parseWith_eq_error (hm : m.grammar = bundledGrammar) (hb : (m.lexicon bundledRules []).Bundles actions)
    (hj : ∀ a ∈ actions, a.2.Judges) {watch : Watcher σ} {rule : Text} {seen : σ} {e : MatchError} :
    (m.parseWith watch rule input data seen).result = .error e ↔
      bundledGrammar.ruleId? rule = none ∧ e = .unknownStartRule rule := by
  rw [← hm]
  cases hid : m.grammar.ruleId? rule with
  | none =>
    unfold Matcher.parseWith
    rw [hid]
    simp [eq_comm]
  | some id =>
    obtain ⟨report, hreport⟩ : ∃ report, (m.parseWith watch rule input data seen).result = .ok report :=
      parseWith_total hm hb hj hid watch seen
    rw [hreport]
    simp

theorem matchesRule_eq_error {rule t : Text} {e : MatchError} : matchesRule rule t = .error e ↔
    bundledGrammar.ruleId? rule = none ∧ e = .unknownStartRule rule := by
  have h : (fieldMatcher.parseWith Watcher.silent rule t.toArray .empty ()).result = .error e ↔ _ :=
    parseWith_eq_error fieldMatcher_bundles.1 fieldMatcher_bundles.2 judges_uri
  rw [← h, matchesRule, Matcher.parse]
  generalize (fieldMatcher.parseWith Watcher.silent rule t.toArray .empty ()).result = x
  cases x <;> simp [Except.map]

theorem watchRule_eq_error {watch : Watcher σ} {rule : Text} {seen : σ} {e : MatchError} :
    (watchRule watch rule input seen).1 = .error e ↔ bundledGrammar.ruleId? rule = none ∧ e = .unknownStartRule rule := by
  have hfst : ∀ {E : Type} (x : Parsed E σ), (let parsed := x; (parsed.result, parsed.seen)).1 = x.result := fun _ => rfl
  unfold watchRule
  split
  · rw [hfst]
    exact parseWith_eq_error messageMatcher_bundles.1 messageMatcher_bundles.2 MessageCapture.judges_actions
  · rw [hfst]
    exact parseWith_eq_error fieldMatcher_bundles.1 fieldMatcher_bundles.2 judges_uri

theorem firstPass_named : bundledGrammar.ruleId? Rules.firstPass ≠ none := by
  obtain ⟨i, hi⟩ := List.getElem?_of_mem firstPass_bundled
  have hid := ruleId?_bundled messageMatcher_bundles.1 hi
  rw [messageMatcher_bundles.1] at hid
  rw [hid]
  simp

theorem ofParsed_ne_engine {parsed : Parsed MessageCapture Unit} (hresult : ∀ e, parsed.result ≠ .error e)
    {e : MatchError} : Fields.ofParsed input parsed ≠ .error (.engine e) := by
  unfold Fields.ofParsed
  intro h
  split at h
  · rename_i hr
    exact hresult _ hr
  · cases h
  · split at h <;> cases h

/-- The structural rules always report something. -/
theorem ofText_ne_engine {text : Text} {e : MatchError} : Fields.ofText text ≠ .error (.engine e) := by
  rw [Fields.ofText, Matcher.parse]
  refine ofParsed_ne_engine fun e h => firstPass_named ?_
  exact ((parseWith_eq_error messageMatcher_bundles.1 messageMatcher_bundles.2 MessageCapture.judges_actions).1 h).1

/-- **A text that is no message is so for its lines or for one of its fields,** and never for a number that is none. -/
theorem parse_ne_engine {text : Text} {policy : AddressPolicy} : (∀ e, Message.parse text policy ≠ .error (.engine e)) ∧
    ∀ value span, Message.parse text policy ≠ .error (.field .notANumber value span) := by
  constructor
  · exact fun e h => ofText_ne_engine ((parse_eq_unless_field (by simp)).1 h)
  · intro value span h
    obtain ⟨f, -, hjudge⟩ := parse_eq_field.1 h
    have hfollows := f.judge_follows policy
    rw [hjudge] at hfollows
    obtain ⟨before, ⟨c, fault⟩, after, hsplit, -, -, herror⟩ := hfollows.of_error
    cases herror
    have hmem : ⟨c, .notANumber⟩ ∈ f.checks policy := by
      rw [hsplit]
      exact List.mem_append_right _ List.mem_cons_self
    cases (Fields.mem_checks.1 hmem).1

/-! ## The structural callbacks -/

/-- **What a message must have was noted.** -/
def MessageCapture.Complete (c : MessageCapture) : Prop :=
  c.domain.isSome ∧ c.address.isSome ∧ c.uri.isSome ∧ c.version.isSome ∧ c.chainId.isSome ∧ c.nonce.isSome ∧
    c.issuedAt.isSome

theorem complete_of_structured {text : Text} (h : IsStructured text) :
    (messageMatcher.parse Rules.firstPass text.toArray .empty).data.Complete := by
  obtain ⟨report, hresult, hsuccess⟩ := h
  obtain ⟨F, -, -, hdata⟩ := cut_of_takes (takes_of_parse messageMatcher_bundles.1 hresult hsuccess)
  rw [hdata]
  exact ⟨rfl, rfl, rfl, rfl, rfl, rfl, rfl⟩

/-- The structural callbacks are idle. -/
theorem idle_structural (counter : Counter) :
    (∀ id f, (messageMatcher counter).ruleCallback? id = some f → ∀ p input o d, (f p input o d).1 = p) ∧
      ∀ id, (messageMatcher counter).udtCallback? id = none := by
  obtain ⟨-, -, -, hbind⟩ := messageMatcher_bound counter
  refine ⟨fun id f hf => ?_, udtCallback?_bundled hbind⟩
  rcases (Matcher.bound_of_bindAll hbind).2 id f hf with ⟨a, ha, rfl⟩ | hf
  · exact MessageCapture.phrase_actions a ha
  · rw [Matcher.ruleCallback?_bare] at hf
    cases hf

/-- **The structural callbacks change nothing of a match.** -/
theorem parseWith_bare (watch : Watcher σ) (rule : Text) (input : Array Char) (data : MessageCapture) (seen : σ) :
    (messageMatcher.parseWith watch rule input data seen).result =
      ((Matcher.bare bundledGrammar).parseWith watch rule input () seen).result ∧
    (messageMatcher.parseWith watch rule input data seen).seen =
      ((Matcher.bare bundledGrammar).parseWith watch rule input () seen).seen := by
  have hm := messageMatcher_bundles.1
  have halike := Matcher.alike_bare (E := Unit) (idle_structural .exact).1 (idle_structural .exact).2
  have h := halike.parseWith (by rw [hm]; exact bundledGrammar_wellFormed) watch rule input (d := data) (e := ()) trivial seen
  rw [hm, (messageMatcher_bound .exact).2.1] at h
  exact ⟨h.result, h.seen⟩

/-! ## The audits -/

/-- **The audit of a matcher finds nothing:** every call of a callback meets the demand on its name. -/
def Matcher.MeetsDemands (m : Matcher D) (demand : Text → Phrase → Array Char → Nat → D → Bool) (input : Array Char)
    (data : D) : Prop :=
  ∀ {σ : Type} (watch : Watcher σ) (rule : Text) (seen : σ),
    (m.audit demand).parseWith watch rule input (data, true) seen =
      ⟨(m.parseWith watch rule input data seen).result, ((m.parseWith watch rule input data seen).data, true),
        (m.parseWith watch rule input data seen).seen⟩

theorem meetsDemands_of_ensures {demand : Text → Phrase → Array Char → Nat → D → Bool} (hm : m.grammar = bundledGrammar)
    (h : ∀ name ∈ bundledNames,
      ((m.audit demand).lexicon bundledRules []).Ensures input (.rnm name) 0 (data, true) fun _ x => x.2 = true) :
    m.MeetsDemands demand input data := by
  intro σ watch rule seen
  cases hid : m.grammar.ruleId? rule with
  | none =>
    unfold Matcher.parseWith
    rw [show (m.audit demand).grammar = m.grammar from rfl, hid]
  | some id =>
    obtain ⟨name, hname⟩ := name_of_ruleId? hm hid
    exact parseWith_audit hm (by rw [hm]; exact bundledGrammar_wellFormed) hid hname (h name (List.mem_of_getElem? hname))
      watch seen

/-- **Both sets of callbacks keep to what they demand,** whichever rule a match begins with. -/
theorem meetsDemands (hsize : input.size < 2 ^ 32) :
    (∀ data, messageMatcher.MeetsDemands MessageCapture.demand input data) ∧
      fieldMatcher.MeetsDemands UriCapture.demand input .empty :=
  ⟨fun data => meetsDemands_of_ensures messageMatcher_bundles.1 fun _ hname =>
    MessageCapture.keeps_audit hname 0 (data, true) (Nat.zero_le _) rfl,
   meetsDemands_of_ensures fieldMatcher_bundles.1 fun _ hname => UriCapture.ensures_sound hsize hname⟩

/-- **The bundled grammar and its callbacks keep the contract of the engine.**  Reading a message never fails in the
engine, nor at a number that is none; what is accepted has been noted completely; the structural callbacks change nothing
of a match; a single rule fails only if there is no such rule; and no call of a callback takes off more than there is,
slices beyond the input or counts too far. -/
theorem bundled_sound (text : Text) (hlen : text.length < 2 ^ 32) :
    (∀ policy, (∀ e, Message.parse text policy ≠ .error (.engine e)) ∧
      ∀ value span, Message.parse text policy ≠ .error (.field .notANumber value span)) ∧
    (IsStructured text → (messageMatcher.parse Rules.firstPass text.toArray .empty).data.Complete) ∧
    (∀ {σ : Type} (watch : Watcher σ) (seen : σ),
      (messageMatcher.parseWith watch Rules.firstPass text.toArray .empty seen).result =
        ((Matcher.bare bundledGrammar).parseWith watch Rules.firstPass text.toArray () seen).result) ∧
    (∀ rule e, matchesRule rule text = .error e ↔ bundledGrammar.ruleId? rule = none ∧ e = .unknownStartRule rule) ∧
    (∀ {σ : Type} (watch : Watcher σ) (rule : Text) (seen : σ) (e : MatchError),
      (watchRule watch rule text.toArray seen).1 = .error e ↔
        bundledGrammar.ruleId? rule = none ∧ e = .unknownStartRule rule) ∧
    (∀ data, messageMatcher.MeetsDemands MessageCapture.demand text.toArray data) ∧
    fieldMatcher.MeetsDemands UriCapture.demand text.toArray .empty :=
  ⟨fun _ => parse_ne_engine, complete_of_structured, fun watch seen => (parseWith_bare watch _ _ _ seen).1,
    fun _ _ => matchesRule_eq_error, fun _ _ _ _ => watchRule_eq_error, meetsDemands (by simpa using hlen)⟩

/-- A text of one character. -/
theorem bundled_sound_char : ("a" : Text).length < 2 ^ 32 ∧
    fieldMatcher.MeetsDemands UriCapture.demand ("a" : Text).toArray .empty :=
  ⟨by decide, (bundled_sound "a" (by decide)).2.2.2.2.2.2⟩

end SignIn
