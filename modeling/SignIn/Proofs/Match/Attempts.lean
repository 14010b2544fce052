import SignIn.Proofs.Match.Discipline
/-!
# Matches one after the other

Those who watch may be kept from one match to the next, however the one before came out.  An attempt is what a match is
asked for with; attempts that share their watcher are made one after the other (`Matcher.attemptAll`), each going on
with what was seen before.  Since no watcher sways a match, what is seen in the end is a fold over the events of all
attempts.

An attempt is refused, and tells of nothing, if there is no such start rule or a terminal has no callback.  Any other
that comes to an end, be it by an error, has told of its start first, and then only of operators that refer to rules
and terminals that there are (`Matcher.events_of_begun`).
-/
namespace SignIn

variable {D σ τ : Type}

/-! ## What is kept while a match goes on -/

/-- **An event within a match** tells of an operator that refers to what there is. -/
def Event.Known (g : Grammar) : Event → Prop
  | .start _ => False
  | .down op _ | .up op _ _ =>
    (∀ id, op = .rnm id → id.index < g.rules.size) ∧ ∀ id, op = .udt id → id.index < g.udts.size

namespace Engine

open Outcome (Agree)

variable {s : Setting D σ} {P : σ → Prop}

theorem steady_same (P : σ → Prop) :
    Steady (D := D) (Run.Same fun r => P r.seen) (Run.Same fun r => P r.seen) where
  data h := by rw [h.1]
  lookahead h := by rw [h.1]
  answer h _ := by obtain ⟨rfl, h⟩ := h; exact ⟨rfl, h⟩
  raise h := by obtain ⟨rfl, h⟩ := h; exact ⟨rfl, h⟩
  lower h := by obtain ⟨rfl, h⟩ := h; exact ⟨rfl, h⟩
  broken := id

/-- **What every event keeps, an operator keeps,** also if it is broken off. -/
theorem execute_keeps (hg : s.matcher.grammar.WellFormed)
    (hP : ∀ {x e}, e.Known s.matcher.grammar → P x → P (s.watch x e)) :
    ∀ (depth : Nat) (code : Array Opcode) (i o : Nat) (r : Run D σ), s.matcher.grammar.Code code → i < code.size →
      o ≤ s.input.size → P r.seen →
      Agree False (Phrase.Fits s.input.size o) (Run.Same fun r => P r.seen) (Run.Same fun r => P r.seen)
        (execute s depth code i o r) (execute s depth code i o r)
  | 0, _, _, _, _, _, _, _, _ => .inr rfl
  | depth + 1, code, i, o, r, hc, hi, ho, hr => by
    have hop := Array.getElem?_eq_getElem hi
    have hwithin := hc.within i _ hop
    -- a run goes along with itself, as long as what is seen has the property
    refine step_agree (steady_same P) rfl rfl hg ?_ hc hop ho ⟨rfl, ?_⟩ ?_
    · rintro code i o r _ hc hi ho ⟨rfl, hr⟩
      exact execute_keeps hg hP depth code i o r hc hi ho hr
    · simp only [enter]
      split
      · exact hP ⟨hwithin.rule, hwithin.udt⟩ hr
      · exact hr
    · rintro p r' _ _ ⟨rfl, hr'⟩
      refine ⟨rfl, ?_⟩
      simp only [leave]
      split
      · exact hP ⟨hwithin.rule, hwithin.udt⟩ hr'
      · exact hr'

end Engine

/-! ## One attempt -/

/-- **What a match is asked for with:** the name of the start rule, the input, the data that the callbacks are handed, and
the depth that it may go to. -/
structure Attempt (D : Type) where
  start : Text
  input : Array Char
  data : D
  depth : Nat

/-- **An error of a match that was refused.** -/
def MatchError.Refuses : MatchError → Prop
  | .unknownStartRule _ | .unboundUdt _ => True
  | _ => False

namespace Matcher

variable {m : Matcher D} {watch : Watcher σ}

/-- **A match is attempted,** those who watch having seen something before. -/
def attempt (m : Matcher D) (watch : Watcher σ) (a : Attempt D) (seen : σ) : Parsed D σ :=
  match m.grammar.ruleId? a.start with
  | none => ⟨.error (.unknownStartRule a.start), a.data, seen⟩
  | some id =>
    match m.unboundUdt? with
    | some name => ⟨.error (.unboundUdt name), a.data, seen⟩
    | none => m.parseFrom watch a.depth id a.input a.data seen

/-- A watched match is an attempt to the depth that it may need. -/
theorem parseWith_eq_attempt (start : Text) (input : Array Char) (data : D) (seen : σ) :
    m.parseWith watch start input data seen = m.attempt watch ⟨start, input, data, m.depthFor input⟩ seen := rfl

/-- An attempt that came to an end with a report is a match from its start rule. -/
theorem attempt_eq_ok {a : Attempt D} {seen : σ} {report : MatchReport}
    (h : (m.attempt watch a seen).result = .ok report) :
    ∃ id, m.grammar.ruleId? a.start = some id ∧
      m.attempt watch a seen = m.parseFrom watch a.depth id a.input a.data seen := by
  unfold attempt at h ⊢
  split at h
  · cases h
  rename_i id hid
  split at h
  · cases h
  · exact ⟨id, hid, rfl⟩

theorem indifferent_attempt (hg : m.grammar.WellFormed) (a : Attempt D) :
    Indifferent fun {σ} (watch : Watcher σ) seen => m.attempt watch a seen := by
  refine indifferent_of_mirrors fun hP _ _ hxy => ?_
  unfold attempt
  split
  · exact ⟨rfl, rfl, hxy⟩
  rename_i id hid
  split
  · exact ⟨rfl, rfl, hxy⟩
  exact parseFrom_mirrors hg hP a.depth (Grammar.ruleId?_lt hid) a.input a.data hxy

def events (m : Matcher D) (a : Attempt D) : List Event := (m.attempt .record a []).seen.reverse

theorem attempt_seen (hg : m.grammar.WellFormed) (a : Attempt D) (seen : σ) :
    (m.attempt watch a seen).seen = (m.events a).foldl watch seen := (m.indifferent_attempt hg a).seen watch seen

/-- **What every event keeps, a match from a rule keeps** from its start on, unless it is given up. -/
theorem parseFrom_keeps (hg : m.grammar.WellFormed) {P : σ → Prop}
    (hevent : ∀ {x e}, e.Known m.grammar → P x → P (watch x e)) {id : RuleId} (hid : id.index < m.grammar.rules.size)
    (depth : Nat) {input : Array Char} (data : D) {seen : σ} (hstart : P (watch seen (.start input))) :
    (m.parseFrom watch depth id input data seen).result = .error .tooDeep ∧
        (m.parseFrom watch depth id input data seen).seen = seen ∨
      P (m.parseFrom watch depth id input data seen).seen := by
  have hkeeps := Engine.execute_keeps (s := ⟨m, watch, input⟩) hg hevent depth #[.rnm id] 0 0
    (firstRun watch input data seen) (Grammar.code_rnm hid) Nat.one_pos (Nat.zero_le _) hstart
  unfold parseFrom
  dsimp only
  generalize Engine.execute ⟨m, watch, input⟩ depth #[.rnm id] 0 0 (firstRun watch input data seen) = out at hkeeps ⊢
  cases out with
  | ended p r => exact .inr hkeeps.2.2.2
  | broken e r => exact .inr hkeeps.2.2
  | stuck => exact hkeeps.elim
  | starved => exact .inl ⟨rfl, rfl⟩

variable {rules : List (Text × List Opcode)} {udts : List (Text × Bool)}

/-- A match that began is broken off by none of the errors for which one is refused. -/
theorem not_refuses_of_parseFrom (htables : Grammar.ofTables rules udts = .ok m.grammar) (hbound : m.unboundUdt? = none)
    {id : RuleId} (hid : id.index < m.grammar.rules.size) {depth : Nat} {input : Array Char} {data : D} {seen : σ}
    {e : MatchError} (h : (m.parseFrom watch depth id input data seen).result = .error e) : ¬ e.Refuses := by
  have hg := Grammar.wellFormed_ofTables htables
  have hlogged : m.Disciplined id input (m.logged.parseFrom watch depth id input (data, []) seen) :=
    disciplined_parseFrom hg (Grammar.distinct_ofTables htables) (fun _ => udtCallback?_ne_none hbound) watch depth hid
      data seen
  have hnothing : (data, ([] : List (Call D))).1 = data := rfl
  have halike := m.alike_logged.parseFrom hg watch depth hid input hnothing seen
  intro hrefuses
  rw [← halike.result] at h
  have hne : e ≠ .tooDeep := by
    rintro rfl
    exact hrefuses
  -- a call is at fault for three errors only, and for none of these is a match refused
  obtain ⟨c, -, hfault⟩ := (hlogged.fault e hne).1 h
  rcases Call.fault?_named hfault with ⟨_, _, rfl⟩ | rfl | rfl <;> exact hrefuses

/-- **An attempt that is refused** leaves its data and those who watch as they were. -/
theorem attempt_of_refused (htables : Grammar.ofTables rules udts = .ok m.grammar) {a : Attempt D} {seen : σ}
    {e : MatchError} (h : (m.attempt watch a seen).result = .error e) (hrefuses : e.Refuses) :
    (m.attempt watch a seen).data = a.data ∧ (m.attempt watch a seen).seen = seen := by
  unfold attempt at h ⊢
  split at h
  · exact ⟨rfl, rfl⟩
  rename_i id hid
  split at h
  · exact ⟨rfl, rfl⟩
  · exact absurd hrefuses (not_refuses_of_parseFrom htables ‹_› (Grammar.ruleId?_lt hid) h)

/-- **What the start of a match and every event within one keep,** an attempt keeps. -/
theorem attempt_keeps (hg : m.grammar.WellFormed) {P : σ → Prop}
    (hstart : ∀ {x} input, P x → P (watch x (.start input)))
    (hevent : ∀ {x e}, e.Known m.grammar → P x → P (watch x e)) (a : Attempt D) {seen : σ} (h : P seen) :
    P (m.attempt watch a seen).seen := by
  unfold attempt
  split
  · exact h
  rename_i id hid
  split
  · exact h
  rcases parseFrom_keeps hg hevent (Grammar.ruleId?_lt hid) a.depth a.data (hstart a.input h) with ⟨-, hseen⟩ | hkept
  · rwa [hseen]
  · exact hkept

/-- **An attempt that comes to an end, not refused,** has told of its start, and then of operators that refer to what
there is. -/
theorem events_of_begun (hg : m.grammar.WellFormed) {a : Attempt D}
    (h : ∀ e, (m.attempt .record a []).result = .error e → ¬ e.Refuses ∧ e ≠ .tooDeep) :
    ∃ es, m.events a = .start a.input :: es ∧ ∀ e ∈ es, e.Known m.grammar := by
  let P : List Event → Prop := fun seen => ∃ es, seen = es ++ [.start a.input] ∧ ∀ e ∈ es, e.Known m.grammar
  unfold events
  unfold attempt at h ⊢
  split at h
  · exact absurd trivial (h _ rfl).1
  rename_i id hid
  split at h
  · exact absurd trivial (h _ rfl).1
  have hevent : ∀ {seen : List Event} {e : Event}, e.Known m.grammar → P seen → P (Watcher.record seen e) := by
    rintro _ e he ⟨es, rfl, hes⟩
    exact ⟨e :: es, rfl, List.forall_mem_cons.2 ⟨he, hes⟩⟩
  have hstart : P (Watcher.record [] (.start a.input)) := ⟨[], rfl, by simp⟩
  obtain ⟨es, hseen, hes⟩ := (parseFrom_keeps hg hevent (Grammar.ruleId?_lt hid) a.depth a.data hstart).resolve_left
    fun hdeep => (h _ hdeep.1).2 rfl
  refine ⟨es.reverse, ?_, fun e he => hes e (List.mem_reverse.1 he)⟩
  rw [hseen, List.reverse_append]
  rfl

/-! ## Many attempts -/

/-- **What is seen after attempts one after the other,** however each of them came out. -/
def attemptAll (m : Matcher D) (watch : Watcher σ) (as : List (Attempt D)) (seen : σ) : σ :=
  as.foldl (fun seen a => (m.attempt watch a seen).seen) seen

/-- **What the start of a match and every event within one keep,** attempts keep. -/
theorem attemptAll_keeps (hg : m.grammar.WellFormed) {P : σ → Prop}
    (hstart : ∀ {x} input, P x → P (watch x (.start input)))
    (hevent : ∀ {x e}, e.Known m.grammar → P x → P (watch x e)) (as : List (Attempt D)) {seen : σ} (h : P seen) :
    P (m.attemptAll watch as seen) := by
  induction as generalizing seen with
  | nil => exact h
  | cons a as ih => exact ih (attempt_keeps hg hstart hevent a h)

end Matcher
end SignIn
