import SignIn.Proofs.Expr.Ensures
import SignIn.Proofs.Match.Callbacks
import SignIn.Proofs.Message.Cut
import SignIn.Proofs.Rules.Fields
/-!
# Matches of the bundled rules end

A match from a bundled rule reports something, whatever the text: the rules are no deeper than the depth of a match, and
their callbacks keep the engine's contract, for all they do to a phrase is to reject it.  What else the callbacks keep is
carried through by `Lexicon.Keeps`; here that is what an audit of the structural callbacks notes.
-/
namespace SignIn

open Lexicon

section

variable {D σ : Type} {m : Matcher D} {start name : Text} {input : Array Char} {data : D} {actions : List (Text × Callback D)}
  {id : RuleId}

/-- **What the start rule ensures, a match from it comes to,** and it reports something. -/
theorem parseWith_ensures {Q : Phrase → D → Prop} (hm : m.grammar = bundledGrammar)
    (hid : m.grammar.ruleId? start = some id) (hname : bundledNames[id.index]? = some name)
    (h : (m.lexicon bundledRules []).Ensures input (.rnm name) 0 data Q) (watch : Watcher σ) (seen : σ) :
    ∃ report p, (m.parseWith watch start input data seen).result = .ok report ∧
      Q p (m.parseWith watch start input data seen).data := by
  have hg : Grammar.ofExprs bundledRules [] = .ok m.grammar := by rw [hm, bundledGrammar_eq]
  obtain ⟨hrun, hns⟩ := run_depthFor input data hm (List.mem_of_getElem? hname)
  rw [hrun] at hns
  obtain ⟨p, d, hp, hQ⟩ := h.resolve_left hns
  rw [parseWith_bundled watch input seen hm hid]
  obtain ⟨report, hresult, hdata, -⟩ := Matcher.parseFrom_of_run watch seen (Matcher.holds_lexicon hg)
    (resolve_bundled m hname) (hrun.trans hp)
  exact ⟨report, p, hresult, by rw [hdata]; exact hQ⟩

theorem bundledRules_stay : ∀ name ∈ bundledNames, (Expr.rnm name).stays bundledRules [] [] (bundledDepth + 1) = true := by
  decide

/-- **What the callbacks keep, an expression keeps,** within the rules that it reaches. -/
theorem Lexicon.Bundles.keeps {l : Lexicon D} (hb : l.Bundles actions) {J : D → Prop} {units barred : List Text}
    (hkept : ∀ r ∈ bundledRules, r.1 ∉ units → r.1 ∉ barred → ∀ f, (r.1, f) ∈ actions → l.KeptBy input J r.2 f)
    (hunits : ∀ name ∈ units, l.Keeps input J (.rnm name)) {n : Nat} {e : Expr}
    (he : e.stays bundledRules units barred n = true) : l.Keeps input J e := by
  refine keeps_of_stays hunits (fun r hr hu hbar => ?_) he
  by_cases hname : r.1 ∈ actions.map (·.1)
  · obtain ⟨⟨name, f⟩, ha, rfl⟩ := List.mem_map.1 hname
    refine ⟨some f, hb.bound hr ha, fun g hg => ?_⟩
    cases hg
    exact hkept r hr hu hbar f ha
  · exact ⟨none, hb.plain hr hname, by simp⟩

/-- **What no callback within reach writes is left as it was,** whatever an expression comes to. -/
theorem Lexicon.Bundles.leaves_of_stays {l : Lexicon D} (hb : l.Bundles actions) (hj : ∀ a ∈ actions, a.2.Judges)
    {barred : List Text} {α : Type} (part : D → α)
    (hpart : ∀ a ∈ actions, a.1 ∉ barred → ∀ p input o d, part (a.2 p input o d).2 = part d) {n : Nat} {e : Expr}
    (he : e.stays bundledRules [] barred n = true) {pre post : Text} {d d' : D} {p : Phrase}
    (h : l.outcome (pre ++ post).toArray e pre.length d = .ended p d') : part d' = part d := by
  have hkeeps : l.Keeps (pre ++ post).toArray (fun d' => part d' = part d) e := by
    refine hb.keeps (fun r _ _ hbar f hf => ?_) (by simp) he
    have hkept := hpart _ hf hbar
    exact ⟨hj _ hf, fun _ hd => (hkept _ _ _ _).trans hd, fun _ _ _ hd => (hkept _ _ _ _).trans hd⟩
  exact Outcome.Ensures.of_ended (hkeeps pre.length d (by simp) rfl) h

/-- Out of reach are the first of the callbacks, up to some number. -/
theorem Lexicon.Bundles.leaves {l : Lexicon D} (hb : l.Bundles actions) (hj : ∀ a ∈ actions, a.2.Judges) (k : Nat)
    {α : Type} (part : D → α) (hpart : ∀ a ∈ actions.drop k, ∀ p input o d, part (a.2 p input o d).2 = part d) {n : Nat}
    {e : Expr} (he : e.stays bundledRules [] ((actions.take k).map (·.1)) n = true) {pre post : Text} {d d' : D} {p : Phrase}
    (h : l.outcome (pre ++ post).toArray e pre.length d = .ended p d') : part d' = part d := by
  refine hb.leaves_of_stays hj part (fun a ha hbar => hpart a ?_) he h
  rw [← List.take_append_drop k actions, List.mem_append] at ha
  exact ha.resolve_left fun hfirst => hbar (List.mem_map_of_mem hfirst)

/-- **A match from a bundled rule reports something,** if the callbacks judge. -/
theorem parseWith_total (hm : m.grammar = bundledGrammar) (hb : (m.lexicon bundledRules []).Bundles actions)
    (hj : ∀ a ∈ actions, a.2.Judges) (hid : m.grammar.ruleId? start = some id) (watch : Watcher σ) (seen : σ) :
    ∃ report, (m.parseWith watch start input data seen).result = .ok report := by
  obtain ⟨name, hname⟩ := name_of_ruleId? hm hid
  have hkeeps : (m.lexicon bundledRules []).Keeps input (fun _ => True) (.rnm name) := by
    refine hb.keeps (fun r _ _ _ f hf => ⟨hj _ hf, fun _ _ => trivial, fun _ _ _ _ => trivial⟩) (by simp)
      (bundledRules_stay name (List.mem_of_getElem? hname))
  obtain ⟨report, -, hreport, -⟩ := parseWith_ensures hm hid hname (hkeeps 0 data (Nat.zero_le _) trivial) watch seen
  exact ⟨report, hreport⟩

/-! ## Audits -/

theorem name_at {name : Text} {i : Nat} (h : bundledNames[i]? = some name) :
    (bundledGrammar.rules[i]?).elim [] Rule.name = name := by
  have hnames : (bundledGrammar.rules.toList.map Rule.name)[i]? = some name := by rw [bundledGrammar_ruleNames, h]
  rw [List.getElem?_map, Array.getElem?_toList] at hnames
  obtain ⟨rule, hrule, hname⟩ := Option.map_eq_some_iff.1 hnames
  rw [hrule]
  exact hname

theorem Callback.judges_audited {demand : Phrase → Array Char → Nat → D → Bool} {f : Callback D} (hf : f.Judges) :
    (f.audited demand).Judges := fun p input o d => hf p input o d.1

/-- The callbacks of an audited matcher are its own, audited by the demands on their names. -/
theorem audit_bundles {demand : Text → Phrase → Array Char → Nat → D → Bool} (hm : m.grammar = bundledGrammar)
    (hb : (m.lexicon bundledRules []).Bundles actions) :
    ((m.audit demand).lexicon bundledRules []).Bundles (actions.map fun a => (a.1, a.2.audited (demand a.1))) := by
  have hdefines : ∀ {name body callback}, (name, body) ∈ bundledRules →
      (m.lexicon bundledRules []).Defines name body callback →
      ((m.audit demand).lexicon bundledRules []).Defines name body (callback.map (Callback.audited (demand name))) := by
    intro name body callback hmem hdef
    obtain ⟨i, hi⟩ := List.getElem?_of_mem hmem
    have hname : bundledNames[i]? = some name := by simp [bundledNames, hi]
    have hres := resolve_bundled m hname
    obtain ⟨id, n, hid, hbody, hcallback⟩ := hdef
    obtain rfl : (⟨i⟩ : RuleId) = id := by
      have heq := hres.symm.trans hid
      cases heq
      rfl
    refine ⟨⟨i⟩, n, hres, hbody, ?_⟩
    have hon : (m.audit demand).ruleCallback? ⟨i⟩ = _ := Matcher.ruleCallback?_audit m demand ⟨i⟩
    rw [hm, name_at hname, show m.ruleCallback? ⟨i⟩ = callback from hcallback] at hon
    exact hon
  constructor
  · intro name body g hbody hg
    obtain ⟨⟨name, f⟩, hf, heq⟩ := List.mem_map.1 hg
    cases heq
    exact hdefines hbody (hb.bound hbody hf)
  · intro name body hbody hname
    rw [List.map_map] at hname
    exact hdefines hbody (hb.plain hbody hname)

/-- **A match under audit:** it reports and shows what it did without, and what it notes is what its start rule
ensures. -/
theorem parseWith_audit {demand : Text → Phrase → Array Char → Nat → D → Bool} (hm : m.grammar = bundledGrammar)
    (hg : m.grammar.WellFormed) (hid : m.grammar.ruleId? start = some id) (hname : bundledNames[id.index]? = some name)
    (h : ((m.audit demand).lexicon bundledRules []).Ensures input (.rnm name) 0 (data, true) fun _ x => x.2 = true)
    (watch : Watcher σ) (seen : σ) :
    (m.audit demand).parseWith watch start input (data, true) seen =
      ⟨(m.parseWith watch start input data seen).result, ((m.parseWith watch start input data seen).data, true),
        (m.parseWith watch start input data seen).seen⟩ := by
  obtain ⟨report, p, -, hsound⟩ := parseWith_ensures (m := m.audit demand) hm hid hname h watch seen
  obtain ⟨hresult, hseen, hdata⟩ :=
    (m.alike_audit demand).parseWith hg watch start input (rfl : ((data, true) : D × Bool).1 = data) seen
  generalize (m.audit demand).parseWith watch start input (data, true) seen = x at *
  obtain ⟨result, ⟨d, b⟩, s⟩ := x
  simp only at hresult hseen hdata hsound
  rw [hresult, hseen, ← hdata, hsound]

end

/-- **Whether a text matches a bundled rule is decided.** -/
theorem matchesRule_total {rule : Text} (h : rule ∈ bundledNames) (t : Text) : ∃ b, matchesRule rule t = .ok b := by
  obtain ⟨i, hi⟩ := List.getElem?_of_mem h
  obtain ⟨hm, hb⟩ := fieldMatcher_bundles
  obtain ⟨report, hreport⟩ : ∃ report, (fieldMatcher.parseWith Watcher.silent rule t.toArray .empty ()).result = .ok report :=
    parseWith_total hm hb judges_uri (ruleId?_bundled hm hi) Watcher.silent ()
  refine ⟨report.success, ?_⟩
  rw [matchesRule, Matcher.parse, hreport]
  rfl

theorem bundledGrammar_wellFormed : bundledGrammar.WellFormed := by
  obtain ⟨-, tables, -, hg⟩ := Grammar.ofExprs_eq_ok bundledGrammar_eq
  exact Grammar.wellFormed_ofTables hg

/-- **Rules that read delimiters:** what is taken off their matches is there. -/
theorem delimited_atLeast : ∀ r ∈ bundledRules, (r.1 = "ffscheme" → 3 ≤ r.2.atLeast) ∧
    (r.1 = "fresource" → 2 ≤ r.2.atLeast) ∧ (r.1 = "empty-statement" → 1 ≤ r.2.atLeast) ∧
    (r.1 = "userinfo-at" → 1 ≤ r.2.atLeast) ∧ (r.1 = "IP-literal" → 2 ≤ r.2.atLeast) := by decide

/-! ## The structural callbacks -/

namespace MessageCapture

theorem judges_actions : ∀ a ∈ actions, a.2.Judges := by
  simp only [actions, List.forall_mem_cons]
  exact ⟨Callback.judges_onMatch _, Callback.judges_onMatch _, Callback.judges_onMatch _, Callback.judges_onMatch _,
    Callback.judges_onMatch _, Callback.judges_onMatch _, Callback.judges_onMatch _, Callback.judges_onMatch _,
    Callback.judges_onMatch _, Callback.judges_onMatch _, Callback.judges_onMatch _, Callback.judges_onSuccess _,
    Callback.judges_onEntry _, Callback.judges_onMatch _, Callback.judges_onMatch _, Callback.judges_onMatch _,
    judges_onLead _, judges_onLead _, judges_onLead _, judges_onLead _, judges_onLead _, by simp⟩

/-- The structural callbacks leave every phrase as it is. -/
theorem phrase_actions : ∀ a ∈ actions, ∀ p input o d, (a.2 p input o d).1 = p := by
  have hlead : ∀ line p input o d, (onLead line p input o d).1 = p := phrase_onLead
  simp only [actions, List.forall_mem_cons]
  refine ⟨?_, ?_, ?_, ?_, ?_, ?_, ?_, ?_, ?_, ?_, ?_, ?_, ?_, ?_, ?_, ?_, hlead _, hlead _, hlead _, hlead _, hlead _, by simp⟩
  all_goals exact fun p input o d => rfl

/-- The callbacks between that of the scheme and those of the leads note neither a scheme nor a missing line. -/
theorem kept_actions : ∀ a ∈ (actions.take 16).drop 1, ∀ p input o d,
    (a.2 p input o d).2.scheme = d.scheme ∧ (a.2 p input o d).2.missing = d.missing := by
  simp only [actions, List.take_succ_cons, List.take_zero, List.drop_succ_cons, List.drop_zero, List.forall_mem_cons]
  refine ⟨?_, ?_, ?_, ?_, ?_, ?_, ?_, ?_, ?_, ?_, ?_, ?_, ?_, ?_, ?_, by simp⟩
  all_goals
    intro p input o d
    simp only [onLine, onRequestId, onResources, onResource, onEmptyStatement, onNoStatement, Callback.onMatch,
      Callback.onSuccess, Callback.onEntry]
    split <;> exact ⟨rfl, rfl⟩

/-- **What a structural callback demands of the phrase it is called with:** the characters that it takes off are there,
and what it slices out of the input is. -/
def demand (name : Text) (p : Phrase) (input : Array Char) (o : Nat) (_ : MessageCapture) : Bool :=
  if p.state = .matched then
    if name = "ffscheme" then decide (3 ≤ p.length ∧ o + (p.length - 3) ≤ input.size)
    else if name = "fresource" then decide (2 ≤ p.length ∧ (o + 2) + (p.length - 2) ≤ input.size)
    else if name = "empty-statement" then decide (o + 1 ≤ input.size)
    else decide (o + p.length ≤ input.size)
  else decide (o ≤ input.size)

/-- **A phrase of its rule meets the demand of a callback.** -/
theorem demand_of_fits {r : Text × Expr} (hr : r ∈ bundledRules) {p : Phrase} {input : Array Char} {o : Nat}
    (hp : p.Fits input.size o) (hleast : p.state ≠ .noMatch → r.2.atLeast ≤ p.length) (d : MessageCapture) :
    demand r.1 p input o d = true := by
  obtain ⟨-, hlen⟩ := hp
  obtain ⟨hscheme, hresource, hempty, -⟩ := delimited_atLeast r hr
  unfold demand
  by_cases hs : p.state = .matched
  · have hle := hleast (by rw [hs]; simp)
    rw [if_pos hs]
    split
    · rename_i h
      have := hscheme h
      exact decide_eq_true ⟨by omega, by omega⟩
    · split
      · rename_i h
        have := hresource h
        exact decide_eq_true ⟨by omega, by omega⟩
      · split
        · rename_i h
          have := hempty h
          exact decide_eq_true (by omega)
        · exact decide_eq_true hlen
  · rw [if_neg hs]
    exact decide_eq_true (by omega)

/-- **The structural rules meet the demands of their callbacks,** whichever is the start. -/
theorem keeps_audit {input : Array Char} {name : Text} (hname : name ∈ bundledNames) :
    ((messageMatcher.audit demand).lexicon bundledRules []).Keeps input (fun x => x.2 = true) (.rnm name) := by
  obtain ⟨hm, hb⟩ := messageMatcher_bundles
  refine (audit_bundles hm hb).keeps (fun r hr _ _ g hg => ?_) (by simp) (bundledRules_stay name hname)
  obtain ⟨⟨n, f⟩, hf, heq⟩ := List.mem_map.1 hg
  obtain ⟨rfl, rfl⟩ := Prod.mk.inj heq
  refine ⟨Callback.judges_audited (judges_actions _ hf), fun {o d} ho hd => ?_, fun {o p d d₁} ho hp hrun hd => ?_⟩
  · show (d.2 && demand r.1 .undecided input o d.1) = true
    rw [hd, Bool.true_and]
    exact decide_eq_true ho
  · show (d₁.2 && demand r.1 p input o d₁.1) = true
    rw [hd, Bool.true_and]
    exact demand_of_fits hr hp (fun hs => atLeast_le ho hrun hs) _

end MessageCapture
end SignIn
