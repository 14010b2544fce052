import SignIn.Proofs.Match.Counting
import SignIn.Proofs.Match.Vouches
import SignIn.Proofs.Message.Faults
import SignIn.Proofs.Uri.Demands
/-!
# Texts that a counter holds

A message, a URI or a single field that is no longer than what a counter holds is read as it is under an exact count.
Rounds of repetitions need no more than that (`Matcher.parseWith_exactly`).  The groups of an address are counted by
callbacks, which go on in the same way as long as they meet their demand, and that they do is what the audit of the
callbacks has found (`UriCapture.ensures_sound`).
-/
namespace SignIn

variable {counter : Counter} {t text : Text}

/-! ## Fields -/

section

variable {D : Type} {m m' : Matcher D} {actions actions' : List (Text × Callback D)} {name : Text}

/-- A rule has the callback that its name stands for. -/
theorem ruleCallback?_of_defines {body : Expr} {callback : Option (Callback D)} {i : Nat} (hi : bundledNames[i]? = some name)
    (h : (m.lexicon bundledRules []).Defines name body callback) : m.ruleCallback? ⟨i⟩ = callback := by
  obtain ⟨id, n, hid, -, hcallback⟩ := h
  obtain rfl : (⟨i⟩ : RuleId) = id := by
    have heq := (resolve_bundled m hi).symm.trans hid
    cases heq
    rfl
  exact hcallback

variable {demand : Text → Phrase → Array Char → Nat → D → Bool}

/-- **Matchers of the bundled grammar answer alike** if their callbacks of the same name do, once both count exactly. -/
theorem answersAs_of_bundles (hm : m.grammar = bundledGrammar)
    (hm' : m'.grammar = bundledGrammar) (hb : (m.lexicon bundledRules []).Bundles actions)
    (hb' : (m'.lexicon bundledRules []).Bundles actions') (hnames : actions'.map (·.1) = actions.map (·.1))
    (hactions : ∀ a ∈ actions, ∃ g, (a.1, g) ∈ actions' ∧
      ∀ p input o d, demand a.1 p input o d = true → g p input o d = a.2 p input o d)
    (hexact : m.counter = .exact) (hudt : ∀ id, m'.udtCallback? id = m.udtCallback? id) :
    m'.exactly.AnswersAs m demand := by
  refine ⟨hm'.trans hm.symm, hexact.symm, fun ⟨i⟩ hi => ?_, hudt⟩
  show Option.Rel _ (m.ruleCallback? ⟨i⟩) (m'.ruleCallback? ⟨i⟩)
  have hlen : bundledGrammar.rules.size = bundledNames.length := by
    rw [← Array.length_toList, ← List.length_map Rule.name, bundledGrammar_ruleNames]
  rw [hm] at hi ⊢
  obtain ⟨⟨name, body⟩, hrule⟩ : ∃ r, bundledRules[i]? = some r := by
    rw [hlen, bundledNames, List.length_map] at hi
    exact ⟨_, List.getElem?_eq_getElem hi⟩
  have hname : bundledNames[i]? = some name := by simp [bundledNames, hrule]
  have hbody := List.mem_of_getElem? hrule
  rw [name_at hname]
  by_cases hin : name ∈ actions.map (·.1)
  · obtain ⟨⟨name, f⟩, hf, rfl⟩ := List.mem_map.1 hin
    obtain ⟨g, hg, hanswers⟩ := hactions _ hf
    rw [ruleCallback?_of_defines hname (hb.bound hbody hf), ruleCallback?_of_defines hname (hb'.bound hbody hg)]
    exact .some hanswers
  · rw [ruleCallback?_of_defines hname (hb.plain hbody hin),
      ruleCallback?_of_defines hname (hb'.plain hbody (hnames ▸ hin))]
    exact .none

/-- **A match whose audit finds nothing** is made by every matcher that answers alike and counts as far as the input is
long. -/
theorem parse_of_answers {input : Array Char} {data : D} (hm : m.grammar = bundledGrammar)
    (hb : (m.lexicon bundledRules []).Bundles actions) (hj : ∀ a ∈ actions, a.2.Judges)
    (hsound : ∀ name ∈ bundledNames,
      ((m.audit demand).lexicon bundledRules []).Ensures input (.rnm name) 0 (data, true) fun _ x => x.2 = true)
    (hanswers : m'.exactly.AnswersAs m demand) (hcounter : m'.counter = counter) (h : counter.Holds input.size)
    (rule : Text) : m'.parse rule input data = m.parse rule input data := by
  rw [Matcher.parse, Matcher.parse, Matcher.parseWith_exactly (hcounter ▸ h)]
  cases hid : m.grammar.ruleId? rule with
  | none => rw [Matcher.parseWith, Matcher.parseWith, hanswers.grammar, hid]
  | some id =>
    obtain ⟨name, hname⟩ := name_of_ruleId? hm hid
    obtain ⟨report, hreport⟩ : ∃ report, (m.parseWith Watcher.silent rule input data ()).result = .ok report :=
      parseWith_total hm hb hj hid Watcher.silent ()
    have hwf : m.grammar.WellFormed := by
      rw [hm]
      exact bundledGrammar_wellFormed
    refine Matcher.parseWith_of_audit hanswers hwf hreport ?_
    rw [parseWith_audit hm hwf hid hname (hsound name (List.mem_of_getElem? hname)) Watcher.silent ()]

end

namespace UriCapture

/-- **A group is counted alike where its demand is met.** -/
theorem onGroup_answers {name : Text} (hname : name ∈ groupNames) (p : Phrase) (input : Array Char) (o : Nat)
    (d : UriCapture) (h : demand name p input o d = true) : onGroup counter p input o d = onGroup .exact p input o d := by
  have hne : ∀ n ∈ groupNames, n ≠ "userinfo-at" ∧ n ≠ "host" := by decide
  obtain ⟨hne₁, hne₂⟩ := hne _ hname
  unfold onGroup Callback.onMatch
  by_cases hs : p.state = .matched
  · unfold demand at h
    rw [if_pos hs, if_neg hne₁, if_neg fun h => hne₂ h.1, if_pos hname, decide_eq_true_eq] at h
    have hholds : counter.Holds (d.groups + 1) := by
      cases counter with
      | exact => trivial
      | word => exact h
    have hnext : counter.next d.groups = d.groups + 1 := hholds.shows_eq
    dsimp only
    rw [hnext, Counter.next_exact]
  · rw [if_neg hs, if_neg hs]

theorem group_actions : ∀ a ∈ actions, a.1 ∈ groupNames → a.2 = onGroup := by
  have hother : ∀ {name : Text} {P : Prop}, name ∉ groupNames → name ∈ groupNames → P := fun h h' => absurd h' h
  simp only [actions, List.forall_mem_cons]
  refine ⟨hother ?_, hother ?_, hother ?_, hother ?_, hother ?_, hother ?_, hother ?_, hother ?_, hother ?_, hother ?_,
    hother ?_, hother ?_, hother ?_, hother ?_, hother ?_, fun _ => trivial, fun _ => trivial, fun _ => trivial,
    fun _ => trivial, hother ?_, hother ?_, by simp⟩
  all_goals decide

/-- **The callbacks of the URI rules answer alike where their demands are met,** whatever groups are counted in. -/
theorem actions_answer : ∀ a ∈ actions, ∃ g, (a.1, g) ∈ actions counter ∧
    ∀ p input o d, demand a.1 p input o d = true → g p input o d = a.2 p input o d := by
  have heq : actions counter = actions.map fun a => (a.1, if a.1 ∈ groupNames then onGroup counter else a.2) := rfl
  intro a ha
  refine ⟨_, heq ▸ List.mem_map_of_mem ha, fun p input o d h => ?_⟩
  by_cases hname : a.1 ∈ groupNames
  · rw [if_pos hname, group_actions a ha hname]
    exact onGroup_answers hname p input o d h
  · rw [if_neg hname]

end UriCapture

/-- **A match of a field is the match under an exact count,** from whichever rule. -/
theorem fieldMatcher_counter (h : counter.Holds t.length) (rule : Text) :
    (fieldMatcher counter).parse rule t.toArray .empty = fieldMatcher.parse rule t.toArray .empty := by
  cases counter with
  | exact => rfl
  | word =>
    obtain ⟨hm', hcounter, hb', hbind'⟩ := fieldMatcher_bound .word
    obtain ⟨hm, hexact, hb, hbind⟩ := fieldMatcher_bound .exact
    have hanswers : (fieldMatcher .word).exactly.AnswersAs fieldMatcher UriCapture.demand :=
      answersAs_of_bundles hm hm' hb hb' (actions_names _) UriCapture.actions_answer hexact
        fun id => (udtCallback?_bundled hbind' id).trans (udtCallback?_bundled hbind id).symm
    exact parse_of_answers hm hb judges_uri (fun _ hname => UriCapture.ensures_sound h hname) hanswers hcounter h rule

theorem matchesRule_counter (h : counter.Holds t.length) (rule : Text) :
    matchesRule rule t counter = matchesRule rule t := by
  rw [matchesRule, matchesRule, fieldMatcher_counter h]

theorem splitUri?_counter (h : counter.Holds t.length) : splitUri? t counter = splitUri? t := by
  rw [splitUri?, splitUri?, fieldMatcher_counter h]

/-! ## Messages -/

theorem messageMatcher_exactly (counter : Counter) : (messageMatcher counter).exactly = messageMatcher := by
  obtain ⟨-, -, -, hbind⟩ := messageMatcher_bound counter
  obtain ⟨-, -, -, hexact⟩ := messageMatcher_bound .exact
  generalize messageMatcher counter = m at hbind ⊢
  generalize messageMatcher = m' at hexact ⊢
  have h := Matcher.bindAll_exactly hbind
  rw [Matcher.exactly_bare, hexact] at h
  exact (Except.ok.inj h).symm

/-- **A text is cut as it is under an exact count.** -/
theorem ofText_counter (h : counter.Holds text.length) : Fields.ofText text counter = Fields.ofText text := by
  have hparse : ∀ m : Matcher MessageCapture, m.counter = counter →
      m.parse Rules.firstPass text.toArray .empty = m.exactly.parse Rules.firstPass text.toArray .empty := by
    rintro m rfl
    exact Matcher.parseWith_exactly h _ _ _ _
  rw [Fields.ofText, Fields.ofText, hparse (messageMatcher counter) (messageMatcher_bound counter).2.1,
    messageMatcher_exactly]

namespace Capture

variable {c : Capture} {o : Option Capture} {fault : FieldFault} {rule : Text}

theorem require_counter (h : counter.Holds c.text.length) : c.require rule fault counter = c.require rule fault := by
  rw [require_eq, require_eq, matchesRule_counter h]

theorem requireUri_counter (h : counter.Holds c.text.length) : c.requireUri fault counter = c.requireUri fault := by
  rw [requireUri, requireUri, splitUri?_counter h]

theorem requireDateTime_counter (h : counter.Holds c.text.length) (line : Text) :
    c.requireDateTime line counter = c.requireDateTime line := by
  rw [requireDateTime, requireDateTime, require_counter h]

theorem addressUnder_counter (h : counter.Holds c.text.length) (policy : AddressPolicy) :
    c.addressUnder policy counter = c.addressUnder policy := by
  unfold addressUnder
  rw [require_counter h]

/-- Fields that may be absent are judged alike if the fields are. -/
theorem whenPresent_congr {judge judge' : Capture → Except MessageError Unit} (h : ∀ c ∈ o, judge c = judge' c) :
    whenPresent o judge = whenPresent o judge' := by
  cases o with
  | none => rfl
  | some c => exact h c rfl

theorem whenFilled_congr {judge judge' : Capture → Except MessageError Unit} (h : ∀ c ∈ o, judge c = judge' c) :
    whenFilled o judge = whenFilled o judge' :=
  whenPresent_congr fun c hc => by rw [h c hc]

theorem requireResources_counter : ∀ {cs : List Capture} {index : Nat}, (∀ c ∈ cs, counter.Holds c.text.length) →
    requireResources index cs counter = requireResources index cs
  | [], _, _ => rfl
  | c :: cs, index, h => by
    rw [List.forall_mem_cons] at h
    rw [requireResources, requireResources, requireUri_counter h.1, requireResources_counter h.2]

end Capture

open Capture in
/-- **Fields are judged as they are under an exact count,** if each of them is held. -/
theorem Fields.judge_counter {f : Fields} {policy : AddressPolicy}
    (h : ∀ fault c, f.named fault = some c → counter.Holds c.text.length) : f.judge policy counter = f.judge policy := by
  have hresources : ∀ c ∈ f.resources.getD [], counter.Holds c.text.length := by
    intro c hc
    obtain ⟨i, hi⟩ := List.getElem?_of_mem hc
    exact h (.resource i) c hi
  have hscheme : ∀ c ∈ f.scheme, counter.Holds c.text.length := h .scheme
  have hstatement : ∀ c ∈ f.statement, counter.Holds c.text.length := h .statement
  have hexpiration : ∀ c ∈ f.expirationTime, counter.Holds c.text.length := h (.dateTime "Expiration Time")
  have hnotBefore : ∀ c ∈ f.notBefore, counter.Holds c.text.length := h (.dateTime "Not Before")
  have hrequestId : ∀ c ∈ f.requestId, counter.Holds c.text.length := h .requestId
  unfold Fields.judge
  rw [whenPresent_congr fun c hc => require_counter (hscheme c hc), require_counter (h .domain _ rfl),
    addressUnder_counter (h .address _ rfl), whenFilled_congr fun c hc => require_counter (hstatement c hc),
    requireUri_counter (h .uri _ rfl), require_counter (h .version _ rfl), require_counter (h .chainId _ rfl),
    require_counter (h .nonce _ rfl), requireDateTime_counter (h (.dateTime "Issued At") _ rfl),
    whenPresent_congr fun c hc => requireDateTime_counter (hexpiration c hc) _,
    whenPresent_congr fun c hc => requireDateTime_counter (hnotBefore c hc) _,
    whenFilled_congr fun c hc => require_counter (hrequestId c hc), requireResources_counter hresources]

/-- **A message is read as it is under an exact count.**  Its fields stand in the text, so what holds the text holds them. -/
theorem parse_counter (h : counter.Holds text.length) (policy : AddressPolicy) :
    Message.parse text policy counter = Message.parse text policy := by
  rw [Message.parse, Message.parse, ofText_counter h]
  refine except_bind_congr fun f hf => Fields.judge_counter fun fault c hc => ?_
  obtain ⟨F, -, htext, rfl⟩ := ofText_eq_ok.1 hf
  obtain ⟨pre, -, post, hstands⟩ := F.stands hc
  refine h.mono ?_
  rw [htext, ← hstands, List.length_append, List.length_append]
  omega

end SignIn
