import SignIn.Proofs.Match.Slices
import SignIn.Proofs.Match.Told
/-!
# Watchers change nothing

A match is the same whoever watches it: the same result, the same data, the same calls of its callbacks; and all who
watch are told the same, so that a watcher's state is a fold over the events that anyone recorded (`Indifferent`).  The
events of a match that came to its end are those of a tree, with the start of the match in front
(`watchers_agree`).

That the callbacks are called alike is a case of this: `Matcher.logged` is a matcher whose data hold every call so far,
and it matches as the matcher does.
-/
namespace SignIn

/-! ## Two watchers -/

/-- Two runs that differ in nothing but what those who watch have seen. -/
structure Run.Mirrors {D σ τ : Type} (P : σ → τ → Prop) (r : Run D σ) (t : Run D τ) : Prop where
  data : r.data = t.data
  lookahead : r.lookahead = t.lookahead
  depth : r.depth = t.depth
  deepest : r.deepest = t.deepest
  hits : r.hits = t.hits
  reach : r.reach = t.reach
  seen : P r.seen t.seen

namespace Engine

open Outcome (Agree)

variable {D σ τ : Type} {s : Setting D σ} {s' : Setting D τ} {P : σ → τ → Prop}

theorem steady_mirrors : Steady (D := D) (Run.Mirrors P) (Run.Mirrors P) where
  data h := h.data
  lookahead h := h.lookahead
  answer h _ := { h with data := rfl }
  raise h := { h with lookahead := congrArg (· + 1) h.lookahead }
  lower h := { h with lookahead := congrArg (· - 1) h.lookahead }
  broken := id

/-- **Matches that differ in their watchers only** stay so, if no event parts the watchers. -/
theorem execute_mirrors (hm : s'.matcher = s.matcher) (hi : s'.input = s.input) (hg : s.matcher.grammar.WellFormed)
    (hP : ∀ {x y} e, P x y → P (s.watch x e) (s'.watch y e)) :
    ∀ (depth : Nat) (code : Array Opcode) (i o : Nat) (r : Run D σ) (t : Run D τ), s.matcher.grammar.Code code →
      i < code.size → o ≤ s.input.size → r.Mirrors P t →
      Agree False (Phrase.Fits s.input.size o) (Run.Mirrors P) (Run.Mirrors P) (execute s depth code i o r)
        (execute s' depth code i o t)
  | 0, _, _, _, _, _, _, _, _, _ => .inr rfl
  | depth + 1, code, i, o, r, t, hc, hi', ho, hr => by
    refine step_agree steady_mirrors hm hi hg (execute_mirrors hm hi hg hP depth) hc (Array.getElem?_eq_getElem hi') ho ?_ ?_
    · refine ⟨hr.data, hr.lookahead, ?_, ?_, ?_, hr.reach, ?_⟩
      · exact congrArg (· + 1) hr.depth
      · simp only [enter, hr.deepest, hr.depth]
      · exact congrArg (· + 1) hr.hits
      · simp only [enter, hr.lookahead]
        split
        · exact hP _ hr.seen
        · exact hr.seen
    · intro p r' t' _ hr'
      refine ⟨hr'.data, hr'.lookahead, ?_, hr'.deepest, hr'.hits, ?_, ?_⟩
      · exact congrArg (· - 1) hr'.depth
      · simp only [leave, hr.lookahead, hr'.reach]
      · simp only [leave, hr.lookahead]
        split
        · exact hP _ hr'.seen
        · exact hr'.seen

end Engine

/-- Two matches that report the same and leave the same data, and have shown related things. -/
structure Parsed.Mirrors {D σ τ : Type} (P : σ → τ → Prop) (x : Parsed D σ) (y : Parsed D τ) : Prop where
  result : x.result = y.result
  data : x.data = y.data
  seen : P x.seen y.seen

namespace Matcher

variable {D σ τ : Type} {m : Matcher D} {f : Watcher σ} {g : Watcher τ} {P : σ → τ → Prop} {x : σ} {y : τ}

theorem parseFrom_mirrors (hg : m.grammar.WellFormed) (hP : ∀ {x y} e, P x y → P (f x e) (g y e)) (depth : Nat)
    {id : RuleId} (hid : id.index < m.grammar.rules.size) (input : Array Char) (data : D) (hxy : P x y) :
    (m.parseFrom f depth id input data x).Mirrors P (m.parseFrom g depth id input data y) := by
  have hagree := @Engine.execute_mirrors D σ τ ⟨m, f, input⟩ ⟨m, g, input⟩ P rfl rfl hg hP depth #[.rnm id] 0 0
    (firstRun f input data x) (firstRun g input data y) (Grammar.code_rnm hid) Nat.one_pos (Nat.zero_le _)
    ⟨rfl, rfl, rfl, rfl, rfl, rfl, hP _ hxy⟩
  unfold parseFrom
  dsimp only
  generalize Engine.execute ⟨m, f, input⟩ depth #[.rnm id] 0 0 (firstRun f input data x) = out at hagree
  generalize Engine.execute ⟨m, g, input⟩ depth #[.rnm id] 0 0 (firstRun g input data y) = out' at hagree
  cases out <;> cases out' <;> simp only [Outcome.Agree] at hagree
  · obtain ⟨rfl, -, hr⟩ := hagree
    refine ⟨?_, hr.data, hr.seen⟩
    simp only [report, hr.reach, hr.deepest, hr.hits]
  · obtain ⟨rfl, hr⟩ := hagree
    exact ⟨rfl, hr.data, hr.seen⟩
  all_goals first | exact ⟨rfl, rfl, hxy⟩ | simp at hagree

theorem parseWith_mirrors (hg : m.grammar.WellFormed) (hP : ∀ {x y} e, P x y → P (f x e) (g y e)) (start : Text)
    (input : Array Char) (data : D) (hxy : P x y) :
    (m.parseWith f start input data x).Mirrors P (m.parseWith g start input data y) := by
  unfold parseWith
  split
  · exact ⟨rfl, rfl, hxy⟩
  rename_i id hid
  split
  · exact ⟨rfl, rfl, hxy⟩
  exact parseFrom_mirrors hg hP _ (Grammar.ruleId?_lt hid) input data hxy

end Matcher

/-! ## All watchers -/

/-- **A match that is indifferent to its watchers:** whoever watches, it comes out the same and leaves the same data;
what a watcher has seen is a fold over the events that were recorded; and watchers side by side see what each would see
alone. -/
structure Indifferent {D : Type} (run : ∀ {σ : Type}, Watcher σ → σ → Parsed D σ) : Prop where
  result : ∀ {σ τ : Type} (f : Watcher σ) (g : Watcher τ) (x : σ) (y : τ), (run f x).result = (run g y).result
  data : ∀ {σ τ : Type} (f : Watcher σ) (g : Watcher τ) (x : σ) (y : τ), (run f x).data = (run g y).data
  seen : ∀ {σ : Type} (f : Watcher σ) (x : σ), (run f x).seen = (run .record []).seen.reverse.foldl f x
  both : ∀ {σ τ : Type} (f : Watcher σ) (g : Watcher τ) (x : σ) (y : τ),
    (run (f.both g) (x, y)).seen = ((run f x).seen, (run g y).seen)

/-- A fold of two watchers side by side is the folds of the two. -/
theorem Watcher.foldl_both {σ τ : Type} (f : Watcher σ) (g : Watcher τ) :
    ∀ (es : List Event) (x : σ) (y : τ), es.foldl (f.both g) (x, y) = (es.foldl f x, es.foldl g y)
  | [], _, _ => rfl
  | e :: es, x, y => Watcher.foldl_both f g es (f x e) (g y e)

/-- **Matches that no watcher parts are indifferent to them.** -/
theorem indifferent_of_mirrors {D : Type} {run : ∀ {σ : Type}, Watcher σ → σ → Parsed D σ}
    (h : ∀ {σ τ : Type} {f : Watcher σ} {g : Watcher τ} {P : σ → τ → Prop}, (∀ {x y} e, P x y → P (f x e) (g y e)) →
      ∀ {x y}, P x y → (run f x).Mirrors P (run g y)) : Indifferent run := by
  have hseen : ∀ {σ : Type} (f : Watcher σ) (x : σ), (run f x).seen = (run .record []).seen.reverse.foldl f x := by
    intro σ f x
    -- in step with one who records, a watcher's state is a fold over the record
    refine (h (P := fun y (es : List Event) => y = es.reverse.foldl f x) (x := x) (y := []) (fun e hy => ?_) rfl).seen
    rw [hy, Watcher.record, List.reverse_cons, List.foldl_append]
    rfl
  have hany : ∀ {σ τ : Type} (f : Watcher σ) (g : Watcher τ) (x : σ) (y : τ),
      (run f x).Mirrors (fun _ _ => True) (run g y) := fun f g x y => h (fun _ _ => trivial) trivial
  refine ⟨fun f g x y => (hany f g x y).result, fun f g x y => (hany f g x y).data, hseen, fun f g x y => ?_⟩
  rw [hseen, hseen f, hseen g, Watcher.foldl_both]

/-! ## Calls -/

/-- **A call of a callback:** of whom, with which phrase, where and with which data, and the answer. -/
structure Call (D : Type) where
  name : Text
  given : Phrase
  offset : Nat
  held : D
  answer : Phrase × D

/-- **A callback with a log:** beside its data it holds the calls so far. -/
def Callback.logged {D : Type} (name : Text) (f : Callback D) : Callback (D × List (Call D)) := fun p input o d =>
  let answer := f p input o d.1
  (answer.1, answer.2, d.2 ++ [⟨name, p, o, d.1, answer⟩])

/-- **A matcher with a log** of all calls of its callbacks. -/
def Matcher.logged {D : Type} (m : Matcher D) : Matcher (D × List (Call D)) where
  grammar := m.grammar
  onRule := m.onRule.mapIdx fun i f => f.map (Callback.logged ((m.grammar.rules[i]?).elim [] Rule.name))
  onUdt := m.onUdt.mapIdx fun i f => f.map (Callback.logged ((m.grammar.udts[i]?).elim [] Udt.name))
  counter := m.counter

theorem Callback.alike_logged {D : Type} (name : Text) (f : Callback D) :
    (f.logged name).Alike (fun x d => x.1 = d) f := by
  rintro p input o ⟨d, calls⟩ _ rfl
  exact ⟨rfl, rfl⟩

theorem Matcher.ruleCallback?_logged {D : Type} (m : Matcher D) (id : RuleId) : m.logged.ruleCallback? id =
    (m.ruleCallback? id).map (Callback.logged ((m.grammar.rules[id.index]?).elim [] Rule.name)) := by
  unfold Matcher.ruleCallback? Matcher.logged
  dsimp only
  rw [Array.getElem?_mapIdx]
  cases m.onRule[id.index]? <;> rfl

theorem Matcher.udtCallback?_logged {D : Type} (m : Matcher D) (id : UdtId) : m.logged.udtCallback? id =
    (m.udtCallback? id).map (Callback.logged ((m.grammar.udts[id.index]?).elim [] Udt.name)) := by
  unfold Matcher.udtCallback? Matcher.logged
  dsimp only
  rw [Array.getElem?_mapIdx]
  cases m.onUdt[id.index]? <;> rfl

/-- **A log changes nothing but what it holds.** -/
theorem Matcher.alike_logged {D : Type} (m : Matcher D) : m.logged.Alike (fun x d => x.1 = d) m where
  grammar := rfl
  counter := rfl
  rule id := by
    rw [ruleCallback?_logged]
    cases m.ruleCallback? id with
    | none => exact .inl .none
    | some f => exact .inl (.some (f.alike_logged _))
  udt id := by
    rw [udtCallback?_logged]
    cases m.udtCallback? id with
    | none => exact .none
    | some f => exact .some (f.alike_logged _)

/-! ## The events of a match -/

theorem Watcher.foldl_record : ∀ es seen : List Event, es.foldl Watcher.record seen = es.reverse ++ seen
  | [], _ => rfl
  | e :: es, seen => by
    rw [List.foldl_cons, Watcher.foldl_record es, Watcher.record, List.reverse_cons, List.append_assoc]
    rfl

namespace Matcher

variable {D : Type} {m : Matcher D}

/-- **The events of a match from a rule:** its start, and the tree of the reference to the rule, whose phrase is the one
that is reported. -/
def TellsTree (m : Matcher D) (id : RuleId) (input : Array Char) (report : MatchReport) (events : List Event) : Prop :=
  ∃ p below, (Told.mk (.rnm id) 0 p below).Sound m ∧ report.state = p.state ∧ report.matched = p.length ∧
    events = .start input :: (Told.mk (.rnm id) 0 p below).events

/-- **A match that came to its end has told its tree.** -/
theorem tellsTree_of_parseFrom (hg : m.grammar.WellFormed) {depth : Nat} {id : RuleId}
    (hid : id.index < m.grammar.rules.size) {input : Array Char} {data : D} {report : MatchReport}
    (h : (m.parseFrom .record depth id input data []).result = .ok report) :
    m.TellsTree id input report (m.parseFrom .record depth id input data []).seen.reverse := by
  obtain ⟨p, r, hp, rfl⟩ := parseFrom_eq_ok h
  have htells := Engine.execute_tells (s := ⟨m, .record, input⟩) hg depth (Grammar.code_rnm hid) 0 (.rnm id) 0
    (firstRun .record input data []) rfl (Nat.zero_le _)
  rw [hp] at htells
  obtain ⟨-, below, hsound, htells⟩ := htells
  refine ⟨p, below, hsound, rfl, rfl, ?_⟩
  have hseen : r.seen = (Told.mk (.rnm id) 0 p below).events.foldl Watcher.record [.start input] := htells.seen
  simp only [parseFrom, hp, hseen]
  rw [Watcher.foldl_record, List.reverse_append, List.reverse_reverse]
  rfl

end Matcher

/-- **A way of matching that no watcher sways:** it is indifferent to them, with the calls that it makes; and with the
calls logged it matches as without. -/
structure Matcher.Unswayed {D : Type} (m : Matcher D) (data : D)
    (run : ∀ {E σ : Type}, Matcher E → Watcher σ → E → σ → Parsed E σ) : Prop where
  indifferent : Indifferent fun f x => run m f data x
  calls : Indifferent fun f x => run m.logged f (data, []) x
  logged : ∀ {σ : Type} (f : Watcher σ) (x : σ),
    Matcher.Parsed.Alike (fun d e => d.1 = e) (run m.logged f (data, []) x) (run m f data x)

/-- **Watchers change nothing, and see a well-bracketed match.**  However deep a match may go, and whether it begins or is
refused, no watcher sways it.  If it came to its end, its events are its start and those of a tree, in which nothing
lies below a lookahead.  And whatever operator ended, it left the counters where they were, and told of itself and of a
tree below it, or of nothing if a lookahead was open. -/
theorem watchers_agree {D : Type} {rules : List (Text × List Opcode)} {udts : List (Text × Bool)} {m : Matcher D}
    (htables : Grammar.ofTables rules udts = .ok m.grammar) (start : Text) (input : Array Char) (data : D) :
    m.Unswayed data (fun m f d x => m.parseWith f start input d x) ∧
    (∀ report, (m.parseWith .record start input data []).result = .ok report →
      ∃ id, m.grammar.ruleId? start = some id ∧
        m.TellsTree id input report (m.parseWith .record start input data []).seen.reverse) ∧
    ∀ id, m.grammar.ruleId? start = some id → ∀ depth,
      m.Unswayed data (fun m f d x => m.parseFrom f depth id input d x) ∧
      (∀ report, (m.parseFrom .record depth id input data []).result = .ok report →
        m.TellsTree id input report (m.parseFrom .record depth id input data []).seen.reverse) ∧
      ∀ {σ : Type} (f : Watcher σ) {code : Array Opcode} {i o : Nat} {op : Opcode} {r r' : Run D σ} {p : Phrase},
        m.grammar.Code code → code[i]? = some op → o ≤ input.size →
        Engine.execute ⟨m, f, input⟩ depth code i o r = .ended p r' →
        r'.lookahead = r.lookahead ∧ r'.depth = r.depth ∧
        (r.lookahead ≠ 0 → r'.seen = r.seen) ∧
        (r.lookahead = 0 → ∃ below, (Told.mk op o p below).Sound m ∧
          r'.seen = (Told.mk op o p below).events.foldl f r.seen) := by
  have hg := Grammar.wellFormed_ofTables htables
  have hlogged : m.logged.grammar.WellFormed := hg
  refine ⟨⟨indifferent_of_mirrors fun hP _ _ hxy => Matcher.parseWith_mirrors hg hP start input data hxy,
    indifferent_of_mirrors fun hP _ _ hxy => Matcher.parseWith_mirrors hlogged hP start input (data, []) hxy,
    fun f x => m.alike_logged.parseWith hlogged f start input rfl x⟩, fun report h => ?_, fun id hid depth => ?_⟩
  · obtain ⟨id, hid, -, heq⟩ := Matcher.parseWith_eq_ok h
    rw [heq] at h ⊢
    exact ⟨id, hid, Matcher.tellsTree_of_parseFrom hg (Grammar.ruleId?_lt hid) h⟩
  have hlt := Grammar.ruleId?_lt hid
  refine ⟨⟨indifferent_of_mirrors fun hP _ _ hxy => Matcher.parseFrom_mirrors hg hP depth hlt input data hxy,
    indifferent_of_mirrors fun hP _ _ hxy => Matcher.parseFrom_mirrors hlogged hP depth hlt input (data, []) hxy,
    fun f x => m.alike_logged.parseFrom hlogged f depth hlt input rfl x⟩,
    fun report h => Matcher.tellsTree_of_parseFrom hg hlt h, fun {σ} f {code i o op r r' p} hc hop ho h => ?_⟩
  have htells := Engine.execute_tells (s := ⟨m, f, input⟩) hg depth hc i op o r hop ho
  rw [h] at htells
  obtain ⟨-, below, hsound, htells⟩ := htells
  refine ⟨htells.lookahead, htells.depth, fun hl => ?_, fun hl => ⟨below, hsound, ?_⟩⟩
  · rw [htells.seen, if_neg hl]
  · rw [htells.seen, if_pos hl]

/-- Tables of a rule that looks ahead for one letter and then reads another. -/
def peekTables : List (Text × List Opcode) × List (Text × Bool) :=
  ([("peek", [.cat [1, 3], .not 2, .tbs "a", .tbs "b"])], [])

/-- The matcher of a rule that looks ahead; its callback rejects nothing and counts its calls. -/
def peekMatcher : Matcher Nat where
  grammar := ⟨#[⟨"peek", #[.cat [1, 3], .not 2, .tbs "a", .tbs "b"]⟩], #[]⟩
  onRule := #[some fun p _ _ d => (p, d + 1)]
  onUdt := #[]

theorem watchers_agree_peek :
    Grammar.ofTables peekTables.1 peekTables.2 = .ok peekMatcher.grammar ∧
    peekMatcher.grammar.ruleId? "peek" = some ⟨0⟩ ∧
    peekMatcher.Unswayed 0 (fun m f d x => m.parseWith f "peek" #['b'] d x) ∧
    peekMatcher.TellsTree ⟨0⟩ #['b'] ⟨true, .matched, 1, 1, 1, 4, 5⟩
      (peekMatcher.parseFrom .record 9 ⟨0⟩ #['b'] 0 []).seen.reverse :=
  have hg : Grammar.ofTables peekTables.1 peekTables.2 = .ok peekMatcher.grammar := rfl
  have hid : peekMatcher.grammar.ruleId? "peek" = some ⟨0⟩ := rfl
  have h := watchers_agree hg "peek" #['b'] 0
  ⟨hg, hid, h.1, (h.2.2 ⟨0⟩ hid 9).2.1 _ rfl⟩

end SignIn
