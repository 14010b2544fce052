import SignIn.Message.Capture
import SignIn.Proofs.Expr.Alphabet
import SignIn.Proofs.Expr.Depth
import SignIn.Proofs.Expr.Simulation
import SignIn.Proofs.Match.Binding
import SignIn.Proofs.Match.Slices
import SignIn.Uri.Matcher
/-!
# The bundled rules as expressions

The bundled rules do make a grammar, and the callbacks of the message and of the URI rules can be bound to it.  So a
match of the bundled grammar is the outcome of its rules' expressions: `messageLexicon` and `fieldLexicon` say which
expression and which callback a name stands for, and a match that succeeds is a text that the start rule takes.
-/
namespace SignIn

theorem eq_ok_of_isOk {ε α : Type} {x : Except ε α} (h : x.isOk = true) (a : α) : x = .ok (x.toOption.getD a) := by
  cases x with
  | ok b => rfl
  | error e => cases h

theorem getD_of_eq_ok {ε α : Type} {x : Except ε α} {b : α} (h : x = .ok b) (a : α) : x.toOption.getD a = b := by
  rw [h]
  rfl

theorem bundledRules_isOk : (Grammar.ofExprs bundledRules []).isOk = true := by decide +kernel

/-- **The bundled rules make a grammar.** -/
theorem bundledGrammar_eq : Grammar.ofExprs bundledRules [] = .ok bundledGrammar := by
  rw [bundledGrammar]
  exact eq_ok_of_isOk bundledRules_isOk .empty

/-- The names of the bundled rules. -/
def bundledNames : List Text := bundledRules.map (·.1)

theorem bundledNames_nodup : (bundledNames.map foldCase).Nodup := by
  have h := (firstRepeated_eq_none.1 (Grammar.ofExprs_eq_ok bundledGrammar_eq).1).2
  simpa [bundledNames] using h

theorem bundledGrammar_ruleNames : bundledGrammar.rules.toList.map Rule.name = bundledNames := by
  obtain ⟨-, tables, hlaid, hg⟩ := Grammar.ofExprs_eq_ok bundledGrammar_eq
  rw [(Grammar.ofTables_eq_ok hg).2.1, List.toList_toArray, List.map_map, bundledNames, names_of_laid hlaid]
  rfl

theorem bundledGrammar_udts : bundledGrammar.udts = #[] := by
  obtain ⟨-, tables, -, hg⟩ := Grammar.ofExprs_eq_ok bundledGrammar_eq
  exact (Grammar.ofTables_eq_ok hg).2.2

/-- How deep the bundled rules are at most. -/
def bundledDepth : Nat := 30

theorem bundledRules_within : ∀ r ∈ bundledRules, Expr.within bundledRules bundledDepth r.2 = true := by decide

theorem bundled_within {name : Text} (h : name ∈ bundledNames) :
    Expr.within bundledRules (bundledDepth + 1) (.rnm name) = true := by
  obtain ⟨r, hr, rfl⟩ := List.mem_map.1 h
  unfold Expr.within
  split
  · rename_i r' hr'
    exact bundledRules_within r' (List.mem_of_find?_eq_some hr')
  · rename_i hnone
    have := List.find?_eq_none.1 hnone r hr
    simp at this

/-- Every bundled rule has an opcode at least. -/
theorem bundledGrammar_opcodeCount : bundledRules.length ≤ bundledGrammar.opcodeCount := by
  obtain ⟨-, tables, hlaid, hg⟩ := Grammar.ofExprs_eq_ok bundledGrammar_eq
  have hwf := Grammar.wellFormed_ofTables hg
  have hlen : bundledRules.length = bundledGrammar.rules.toList.length := by
    have h := congrArg List.length bundledGrammar_ruleNames
    rw [List.length_map, bundledNames, List.length_map] at h
    exact h.symm
  have hpos : ∀ r ∈ bundledGrammar.rules.toList, 1 ≤ r.opcodes.size := by
    intro r hr
    obtain ⟨i, hi⟩ := List.getElem?_of_mem hr
    exact (hwf i r (by rwa [Array.getElem?_toList] at hi)).root
  have hsum : ∀ rs : List Rule, (∀ r ∈ rs, 1 ≤ r.opcodes.size) → rs.length ≤ (rs.map fun r => r.opcodes.size).sum := by
    intro rs
    induction rs with
    | nil => exact fun _ => Nat.le_refl 0
    | cons r rs ih =>
      intro h
      rw [List.forall_mem_cons] at h
      have := ih h.2
      have := h.1
      rw [List.map_cons, List.sum_cons, List.length_cons]
      omega
  rw [hlen]
  exact hsum _ hpos

section

variable {D : Type} {actions : List (Text × Callback D)} {m : Matcher D} {name : Text}

/-- **What the names of the bundled rules stand for,** with callbacks of some of these names. -/
structure Lexicon.Bundles (l : Lexicon D) (actions : List (Text × Callback D)) : Prop where
  bound : ∀ {name body f}, (name, body) ∈ bundledRules → (name, f) ∈ actions → l.Defines name body (some f)
  plain : ∀ {name body}, (name, body) ∈ bundledRules → name ∉ actions.map (·.1) → l.Defines name body none

/-- Rules whose callbacks all judge, judge. -/
theorem Lexicon.Bundles.judging {l : Lexicon D} (hb : l.Bundles actions) (hj : ∀ a ∈ actions, a.2.Judges) :
    l.Judging bundledRules := by
  intro r hr
  by_cases hname : r.1 ∈ actions.map (·.1)
  · obtain ⟨a, ha, heq⟩ := List.mem_map.1 hname
    refine ⟨some a.2, hb.bound hr ?_, fun f hf => ?_⟩
    · rw [← heq]
      exact ha
    · obtain rfl : a.2 = f := Option.some.inj hf
      exact hj a ha
  · exact ⟨none, hb.plain hr hname, by simp⟩

theorem bundled_distinct (m : Matcher D) :
    (((m.lexicon bundledRules []).names.rules ++ (m.lexicon bundledRules []).names.udts).map foldCase).Nodup := by
  show ((bundledNames ++ []).map foldCase).Nodup
  rw [List.append_nil]
  exact bundledNames_nodup

theorem resolve_bundled (m : Matcher D) {i : Nat} (hi : bundledNames[i]? = some name) :
    (m.lexicon bundledRules []).resolve name = some (.rule ⟨i⟩) :=
  resolveName_rule (bundled_distinct m) hi (sameName_iff.2 rfl)

/-- **Callbacks with names of the bundled rules can be bound,** each to its rule. -/
theorem bind_bundled (counter : Counter) (hin : ∀ a ∈ actions, a.1 ∈ bundledNames) (hn : (actions.map (·.1)).Nodup) :
    ∃ m, (Matcher.bare bundledGrammar counter).bindAll actions = .ok m ∧ m.grammar = bundledGrammar ∧
      m.counter = counter ∧ (m.lexicon bundledRules []).Bundles actions := by
  have hnames : (Matcher.bare (D := D) bundledGrammar counter).ruleNames = bundledNames := by
    rw [Matcher.ruleNames, Matcher.grammar_bare, bundledGrammar_ruleNames]
  have hudts : (Matcher.bare (D := D) bundledGrammar counter).grammar.udts.toList.map Udt.name = [] := by
    rw [Matcher.grammar_bare, bundledGrammar_udts, List.toList_toArray, List.map_nil]
  have hsize : (Matcher.bare (D := D) bundledGrammar counter).onRule.size =
      (Matcher.bare (D := D) bundledGrammar counter).grammar.rules.size := by
    rw [Matcher.size_onRule_bare, Matcher.grammar_bare]
  obtain ⟨m, hm, hg, hcount, hcb⟩ := Matcher.bindAll_ruleNames
    (by rw [hnames, hudts, List.append_nil]; exact bundledNames_nodup) hsize (by rwa [hnames]) hn
  rw [Matcher.grammar_bare] at hg
  refine ⟨m, hm, hg, hcount, ?_, ?_⟩
  all_goals
    intro name body
  · intro f hbody hf
    obtain ⟨i, hi⟩ := List.getElem?_of_mem hbody
    have hname : bundledNames[i]? = some name := by simp [bundledNames, hi]
    exact ⟨⟨i⟩, name, resolve_bundled m hname, hi, (hcb ⟨i⟩ name (by rwa [hnames])).1 f hf⟩
  · intro hbody hother
    obtain ⟨i, hi⟩ := List.getElem?_of_mem hbody
    have hname : bundledNames[i]? = some name := by simp [bundledNames, hi]
    refine ⟨⟨i⟩, name, resolve_bundled m hname, hi, ?_⟩
    refine ((hcb ⟨i⟩ name (by rwa [hnames])).2 fun a ha heq => hother (List.mem_map.2 ⟨a, ha, heq⟩)).trans ?_
    exact Matcher.ruleCallback?_bare bundledGrammar counter ⟨i⟩

/-! ## Matches of the bundled grammar -/

variable {start text : Text} {data d : D}

/-- **A match that reports something is an outcome of its start rule.** -/
theorem outcome_of_parse (hm : m.grammar = bundledGrammar) {report : MatchReport}
    (h : (m.parse start text.toArray data).result = .ok report) : ∃ p,
      (m.lexicon bundledRules []).outcome text.toArray (.rnm start) 0 data = .ended p (m.parse start text.toArray data).data ∧
        p.Fits text.length 0 ∧ report.success = (p.isSuccess && decide (p.length = text.length)) := by
  have hg : Grammar.ofExprs bundledRules [] = .ok m.grammar := by rw [hm, bundledGrammar_eq]
  obtain ⟨id, hid, -, heq⟩ := Matcher.parseWith_eq_ok h
  have hres : (m.lexicon bundledRules []).resolve start = some (.rule id) := by
    rw [Matcher.resolve_lexicon hg]
    exact Grammar.ruleId?_eq_some.1 hid
  rw [Matcher.parse, heq] at h ⊢
  obtain ⟨p, hrun, hfits, hsuccess, -, -⟩ := Matcher.run_of_parseFrom (Matcher.holds_lexicon hg) hres h
  exact ⟨p, (Lexicon.outcome_eq_run (by rw [hrun]; simp)).trans hrun, hfits, hsuccess⟩

/-- **A text that a bundled rule matches whole, the rule takes.** -/
theorem takes_of_parse (hm : m.grammar = bundledGrammar) {report : MatchReport}
    (h : (m.parse start text.toArray data).result = .ok report) (hs : report.success = true) :
    (m.lexicon bundledRules []).Takes (.rnm start) [] text [] data (m.parse start text.toArray data).data := by
  obtain ⟨p, hout, hfits, hsuccess⟩ := outcome_of_parse hm h
  rw [hs, eq_comm, Bool.and_eq_true, decide_eq_true_eq] at hsuccess
  have hp : p = .ofLength text.length := by
    rw [Phrase.eq_ofLength_of_settled hfits.1 (by intro hn; simp [Phrase.isSuccess, hn, MatchState.isSuccess] at hsuccess),
      hsuccess.2]
  rw [hp] at hout
  simpa [Lexicon.Takes] using hout

/-- A rule of the bundled grammar has a name there. -/
theorem name_of_ruleId? (hm : m.grammar = bundledGrammar) {id : RuleId} (hid : m.grammar.ruleId? start = some id) :
    ∃ name, bundledNames[id.index]? = some name := by
  have hlt := Grammar.ruleId?_lt hid
  have hsize : m.grammar.rules.size = bundledNames.length := by
    rw [hm, ← Array.length_toList, ← List.length_map Rule.name, bundledGrammar_ruleNames]
  rw [hsize] at hlt
  exact ⟨_, List.getElem?_eq_getElem hlt⟩

theorem ruleId?_bundled (hm : m.grammar = bundledGrammar) {i : Nat} (hi : bundledNames[i]? = some name) :
    m.grammar.ruleId? name = some ⟨i⟩ := by
  have hg : Grammar.ofExprs bundledRules [] = .ok m.grammar := by rw [hm, bundledGrammar_eq]
  rw [Grammar.ruleId?_eq_some, ← Matcher.resolve_lexicon hg]
  exact resolve_bundled m hi

/-- A match from a bundled rule begins: there are no terminals to bind. -/
theorem parseWith_bundled {σ : Type} (watch : Watcher σ) (input : Array Char) (seen : σ) (hm : m.grammar = bundledGrammar)
    {id : RuleId} (hid : m.grammar.ruleId? start = some id) :
    m.parseWith watch start input data seen = m.parseFrom watch (m.depthFor input) id input data seen := by
  have hbound : m.unboundUdt? = none := by
    rw [Matcher.unboundUdt?, hm, bundledGrammar_udts]
    rfl
  rw [Matcher.parseWith, hid]
  dsimp only
  rw [hbound]

/-- **The depth of a match is great enough** for every bundled rule. -/
theorem run_depthFor (input : Array Char) (data : D) (hm : m.grammar = bundledGrammar) (hname : name ∈ bundledNames) :
    (m.lexicon bundledRules []).run input (m.depthFor input) (.rnm name) 0 data =
        (m.lexicon bundledRules []).outcome input (.rnm name) 0 data ∧
      (m.lexicon bundledRules []).run input (m.depthFor input) (.rnm name) 0 data ≠ .starved := by
  have hdepth : bundledDepth + 1 ≤ m.depthFor input := by
    have hcount := bundledGrammar_opcodeCount
    have hlen : bundledDepth ≤ bundledRules.length := by decide
    rw [Matcher.depthFor, hm, Nat.succ_mul]
    omega
  have hns : (m.lexicon bundledRules []).run input (bundledDepth + 1) (.rnm name) 0 data ≠ .starved :=
    Lexicon.run_ne_starved (bundled_distinct m) (bundled_within hname) 0 data
  rw [Lexicon.run_of_le hdepth hns, ← Lexicon.outcome_eq_run hns]
  refine ⟨rfl, ?_⟩
  rw [Lexicon.outcome_eq_run hns]
  exact hns

/-- **What a bundled rule comes to, a match from it reports.** -/
theorem parse_of_outcome (hm : m.grammar = bundledGrammar) (hstart : start ∈ bundledNames) {p : Phrase}
    (h : (m.lexicon bundledRules []).outcome text.toArray (.rnm start) 0 data = .ended p d) :
    ∃ report, (m.parse start text.toArray data).result = .ok report ∧
      report.success = (p.isSuccess && decide (p.length = text.length)) ∧ (m.parse start text.toArray data).data = d := by
  have hg : Grammar.ofExprs bundledRules [] = .ok m.grammar := by rw [hm, bundledGrammar_eq]
  obtain ⟨i, hi⟩ := List.getElem?_of_mem hstart
  have hid := ruleId?_bundled hm hi
  have hrun := (run_depthFor text.toArray data hm hstart).1.trans h
  obtain ⟨report, hok, hdata, hsuccess, -, -⟩ :=
    Matcher.parseFrom_of_run Watcher.silent () (Matcher.holds_lexicon hg) (resolve_bundled m hi) hrun
  rw [Matcher.parse, parseWith_bundled Watcher.silent text.toArray () hm hid]
  exact ⟨report, hok, hsuccess, hdata⟩

/-- **A text that a bundled rule takes whole is matched.** -/
theorem parse_of_takes (hm : m.grammar = bundledGrammar) (hstart : start ∈ bundledNames)
    (h : (m.lexicon bundledRules []).Takes (.rnm start) [] text [] data d) :
    ∃ report, (m.parse start text.toArray data).result = .ok report ∧ report.success = true ∧
      (m.parse start text.toArray data).data = d := by
  have hout : (m.lexicon bundledRules []).outcome text.toArray (.rnm start) 0 data = .ended (.ofLength text.length) d := by
    simpa [Lexicon.Takes] using h
  obtain ⟨report, hok, hsuccess, hdata⟩ := parse_of_outcome hm hstart hout
  exact ⟨report, hok, by simp [hsuccess], hdata⟩

end

/-! ## The two matchers -/

/-- **The bundled rules with the callbacks that note the fields of a message.** -/
def messageLexicon (counter : Counter := .exact) : Lexicon MessageCapture :=
  (messageMatcher counter).lexicon bundledRules []

/-- **The bundled rules with the callbacks that note the parts of a URI.** -/
def fieldLexicon (counter : Counter := .exact) : Lexicon UriCapture := (fieldMatcher counter).lexicon bundledRules []

/-- There are no terminals to have a callback. -/
theorem udtCallback?_bundled {D : Type} {actions : List (Text × Callback D)} {counter : Counter} {m : Matcher D}
    (h : (Matcher.bare bundledGrammar counter).bindAll actions = .ok m) (id : UdtId) : m.udtCallback? id = none := by
  have hnone : m.onUdt.size = 0 := by
    rw [(Matcher.bound_of_bindAll h).1, Matcher.bare, Array.size_replicate, bundledGrammar_udts]
    rfl
  rw [Matcher.udtCallback?, Array.getElem?_eq_none (by omega)]
  rfl

/-- The matcher of messages is the bundled grammar with its callbacks and its counter. -/
theorem messageMatcher_bound (counter : Counter) : (messageMatcher counter).grammar = bundledGrammar ∧
    (messageMatcher counter).counter = counter ∧ (messageLexicon counter).Bundles MessageCapture.actions ∧
    (Matcher.bare bundledGrammar counter).bindAll MessageCapture.actions = .ok (messageMatcher counter) := by
  obtain ⟨m, hm, hg, hc, hb⟩ := @bind_bundled _ MessageCapture.actions counter (by decide) (by decide +kernel)
  have heq : messageMatcher counter = m := getD_of_eq_ok hm _
  rw [messageLexicon, heq]
  exact ⟨hg, hc, hb, hm⟩

/-- The callbacks of the URI rules have the same names whatever they count in. -/
theorem actions_names (counter : Counter) :
    (UriCapture.actions counter).map (·.1) = UriCapture.actions.map (·.1) := rfl

/-- The matcher of URIs is the bundled grammar with its callbacks and its counter. -/
theorem fieldMatcher_bound (counter : Counter) : (fieldMatcher counter).grammar = bundledGrammar ∧
    (fieldMatcher counter).counter = counter ∧ (fieldLexicon counter).Bundles (UriCapture.actions counter) ∧
    (Matcher.bare bundledGrammar counter).bindAll (UriCapture.actions counter) = .ok (fieldMatcher counter) := by
  have hnames : ∀ name ∈ (UriCapture.actions counter).map (·.1), name ∈ bundledNames := by
    rw [actions_names]
    decide
  obtain ⟨m, hm, hg, hc, hb⟩ := @bind_bundled _ (UriCapture.actions counter) counter
    (fun a ha => hnames _ (List.mem_map_of_mem ha)) (by rw [actions_names]; decide +kernel)
  have heq : fieldMatcher counter = m := getD_of_eq_ok hm _
  rw [fieldLexicon, heq]
  exact ⟨hg, hc, hb, hm⟩

theorem messageMatcher_bundles : messageMatcher.grammar = bundledGrammar ∧ messageLexicon.Bundles MessageCapture.actions :=
  ⟨(messageMatcher_bound .exact).1, (messageMatcher_bound .exact).2.2.1⟩

theorem fieldMatcher_bundles : fieldMatcher.grammar = bundledGrammar ∧ fieldLexicon.Bundles UriCapture.actions :=
  ⟨(fieldMatcher_bound .exact).1, (fieldMatcher_bound .exact).2.2.1⟩

@[simp] theorem counter_messageLexicon (counter : Counter) : (messageLexicon counter).counter = counter := by
  rw [messageLexicon, Matcher.counter_lexicon, (messageMatcher_bound counter).2.1]

@[simp] theorem counter_fieldLexicon (counter : Counter) : (fieldLexicon counter).counter = counter := by
  rw [fieldLexicon, Matcher.counter_lexicon, (fieldMatcher_bound counter).2.1]

instance : messageLexicon.Exact := ⟨counter_messageLexicon .exact⟩

instance : fieldLexicon.Exact := ⟨counter_fieldLexicon .exact⟩

end SignIn
