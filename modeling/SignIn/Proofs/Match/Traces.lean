import Mathlib.Data.List.Induction
import SignIn.Proofs.Match.Hits
import SignIn.Proofs.Match.Shown
/-!
# Trace, tally and result

Three counters go with a match: the hits of the engine, the depth of a trace and the counts of a tally.  They are
advanced at different places; but what trace and tally see are the events of a tree.  So every operator that is left had
been entered, with whole trees told in between (`Told.entered`), and a trace that has gone through a tree is as deep as
before.  From that the lines of a trace are told one by one (`Trace.Depicts`), by the text that each of them shows
(`Trace.Shows`), and counted (`trace_agrees`).
-/
namespace SignIn

/-- An element of a concatenation stands in the first list or in the second. -/
theorem split_append {α : Type} {a b pre post : List α} {e : α} (h : a ++ b = pre ++ e :: post) :
    (∃ rest, a = pre ++ e :: rest) ∨ ∃ mid, pre = a ++ mid ∧ b = mid ++ e :: post := by
  rcases List.append_eq_append_iff.1 h with ⟨mid, hpre, hb⟩ | ⟨mid, ha, hmid⟩
  · exact .inr ⟨mid, hpre, hb⟩
  · cases mid with
    | nil => exact .inr ⟨[], by simpa using ha.symm, hmid.symm⟩
    | cons e' rest =>
      obtain ⟨rfl, -⟩ := List.cons.inj hmid
      exact .inl ⟨rest, ha⟩

/-! ## Operators that are open -/

/-- Whether an event enters an operator. -/
def Event.enters : Event → Bool
  | .down _ _ => true
  | .start _ | .up _ _ _ => false

/-- **How many operators are open** after some events: those entered and not left again. -/
def openTotal (es : List Event) : Nat := es.countP Event.enters - leftTotal es

namespace Told

mutual

/-- **Every operator that is left had been entered,** and what was told in between are whole trees. -/
theorem entered : ∀ (u : Told) {pre post : List Event} {op : Opcode} {p : Phrase} {o : Nat},
    u.events = pre ++ .up op p o :: post → ∃ before below, pre = before ++ .down op o :: eventsOfAll below
  | .mk op' o' p' below', [], _, _, _, _, h => by cases h
  | .mk op' o' p' below', e :: pre, post, op, p, o, h => by
    obtain ⟨rfl, hrest⟩ := List.cons.inj h
    rcases split_append hrest with ⟨rest, hbelow⟩ | ⟨mid, rfl, hmid⟩
    · obtain ⟨before, below, rfl⟩ := enteredAll below' hbelow
      exact ⟨_ :: before, below, rfl⟩
    · -- the operator of the tree itself is left, and all below it has been told
      cases mid with
      | nil =>
        obtain ⟨⟨⟩, -⟩ := List.cons.inj hmid
        exact ⟨[], below', by rw [List.append_nil, List.nil_append]⟩
      | cons e mid => cases mid <;> cases hmid

theorem enteredAll : ∀ (us : List Told) {pre post : List Event} {op : Opcode} {p : Phrase} {o : Nat},
    eventsOfAll us = pre ++ .up op p o :: post → ∃ before below, pre = before ++ .down op o :: eventsOfAll below
  | [], pre, _, _, _, _, h => by cases pre <;> cases h
  | u :: us, pre, post, op, p, o, h => by
    rw [eventsOfAll] at h
    rcases split_append h with ⟨rest, hu⟩ | ⟨mid, rfl, hus⟩
    · exact entered u hu
    · obtain ⟨before, below, rfl⟩ := enteredAll us hus
      exact ⟨u.events ++ before, below, (List.append_assoc ..).symm⟩

end

mutual

/-- **Half of the events of a tree** tell of operators that are left. -/
theorem length_events : ∀ u : Told, u.events.length = 2 * leftTotal u.events
  | .mk op o p below => by
    have hbelow := length_eventsOfAll below
    have hup : leftTotal [Event.up op p o] = 1 := leftTotal_up ..
    rw [events, leftTotal_down, leftTotal_append, hup, List.length_cons, List.length_append, List.length_singleton]
    omega

theorem length_eventsOfAll : ∀ us : List Told, (eventsOfAll us).length = 2 * leftTotal (eventsOfAll us)
  | [] => rfl
  | u :: us => by
    rw [eventsOfAll, List.length_append, leftTotal_append, length_events u, length_eventsOfAll us, Nat.mul_add]

end

end Told

namespace Trace

variable {g : Grammar} {limit : Nat}

/-- **The line that an event adds** to a trace. -/
def line (g : Grammar) (limit : Nat) (t : Trace) : Event → Styled
  | .start _ => []
  | .down op o => downLine g limit t op o
  | .up op p o => upLine g t.input (t.depth - 1) op p o

theorem lines_watch {e : Event} (he : e.Known g) (t : Trace) :
    (watch g limit t e).lines = t.lines ++ [line g limit t e] := by
  cases e with
  | start input => exact he.elim
  | down op o => exact lines_watch_down ..
  | up op p o => exact lines_watch_up ..

/-- **Every event within a match is one line.** -/
theorem length_lines : ∀ {es : List Event}, (∀ e ∈ es, e.Known g) → ∀ t,
    (es.foldl (watch g limit) t).lines.length = t.lines.length + es.length
  | [], _, _ => rfl
  | e :: es, h, t => by
    rw [List.forall_mem_cons] at h
    rw [List.foldl_cons, length_lines h.2, lines_watch h.1, List.length_append, List.length_singleton, List.length_cons]
    omega

theorem getElem?_lines : ∀ {es : List Event}, (∀ e ∈ es, e.Known g) → ∀ {t : Trace} {i : Nat}, i < t.lines.length →
    (es.foldl (watch g limit) t).lines[i]? = t.lines[i]?
  | [], _, _, _, _ => rfl
  | e :: es, h, t, i, hi => by
    rw [List.forall_mem_cons] at h
    rw [List.foldl_cons, getElem?_lines h.2, lines_watch h.1, List.getElem?_append_left hi]
    rw [lines_watch h.1, List.length_append]
    exact Nat.lt_add_right _ hi

/-- **The line of an event** stands where the event does. -/
theorem getElem?_line {pre post : List Event} {e : Event} (h : ∀ e' ∈ pre ++ e :: post, e'.Known g) {t : Trace}
    (ht : t.lines = []) :
    ((pre ++ e :: post).foldl (watch g limit) t).lines[pre.length]? =
      some (line g limit (pre.foldl (watch g limit) t) e) := by
  rw [List.forall_mem_append, List.forall_mem_cons] at h
  obtain ⟨hpre, he, hpost⟩ := h
  have hlength : (pre.foldl (watch g limit) t).lines.length = pre.length := by
    rw [length_lines hpre, ht, List.length_nil, Nat.zero_add]
  rw [List.foldl_append, List.foldl_cons, getElem?_lines hpost, lines_watch he, ← hlength, List.getElem?_concat_length]
  rw [lines_watch he, List.length_append, hlength]
  exact Nat.lt_succ_self _

mutual

theorem depth_events : ∀ (u : Told) (t : Trace), (u.events.foldl (watch g limit) t).depth = t.depth
  | .mk op o p below, t => by
    rw [Told.events, List.foldl_cons, List.foldl_append]
    show (Trace.depth _) - 1 = _
    rw [depth_eventsOfAll below]
    rfl

/-- **Trees leave a trace as deep as it was.** -/
theorem depth_eventsOfAll : ∀ (us : List Told) (t : Trace),
    ((Told.eventsOfAll us).foldl (watch g limit) t).depth = t.depth
  | [], _ => rfl
  | u :: us, t => by rw [Told.eventsOfAll, List.foldl_append, depth_eventsOfAll us, depth_events u]

end

/-! ## What a line shows -/

/-- **A line shows** as many columns as operators are open, every fifth one ruled and the others dotted, then a letter
between bars, and then a name in brackets.  What comes after that is left open. -/
def Shows (line : Styled) (depth : Nat) (letter : Char) (name : Styled) : Prop :=
  ∃ (columns : Text) (mark rest : Styled), columns.length = depth ∧
    (∀ i < depth, columns[i]? = some (if 5 ∣ i + 1 then '|' else '.')) ∧ mark.render false = ['|', letter, '|'] ∧
    ∀ colored, line.render colored =
      (paint .faint columns ++ mark ++ plain "[" ++ name ++ plain "]" ++ rest).render colored

/-- The letter of an outcome: a match, an empty match, or none. -/
def outcomeLetter : MatchState → Char
  | .matched => 'M'
  | .emptyMatch => 'E'
  | .noMatch | .active => 'N'

theorem columns_indentation (depth : Nat) : (indentation depth).length = depth ∧
    ∀ i < depth, (indentation depth)[i]? = some (if 5 ∣ i + 1 then '|' else '.') := by
  refine ⟨by rw [indentation, List.length_map, List.length_range], fun i hi => ?_⟩
  rw [indentation, List.getElem?_map, List.getElem?_range hi]
  simp only [Option.map_some, Nat.dvd_iff_mod_eq_zero]

theorem shows_downLine (t : Trace) (op : Opcode) (o : Nat) :
    Shows (downLine g limit t op o) t.depth '-' (label g op) := by
  obtain ⟨hlength, hcolumns⟩ := columns_indentation t.depth
  refine ⟨_, plain "|-|", paint .faint (preview limit t.input o), hlength, hcolumns, rfl, fun colored => ?_⟩
  have hopening : (plain "|-|[").render colored = (plain "|-|" ++ plain "[").render colored := by
    cases colored <;> rfl
  simp only [downLine, Styled.render_append, hopening, List.append_assoc]

theorem shows_upLine (input : Array Char) (depth : Nat) (op : Opcode) (p : Phrase) (o : Nat) :
    Shows (upLine g input depth op p o) depth (outcomeLetter p.state) (label g op) := by
  obtain ⟨hlength, hcolumns⟩ := columns_indentation depth
  refine ⟨_, marker p.state, outcomeText input p o, hlength, hcolumns, ?_, fun colored => rfl⟩
  cases p.state <;> rfl

/-! ## The lines of a match -/

/-- **A trace depicts what a match tells:** each event is a line.  No operator is left but where one is open.  An operator
that is left had been entered, with whole trees told in between, and both of its lines are indented by the operators that
were open when it was entered.  The last line is that of the start rule, not indented, with the outcome that is
reported. -/
structure Depicts (g : Grammar) (limit : Nat) (input : Array Char) (id : RuleId) (report : MatchReport)
    (told : List Event) (t : Trace) : Prop where
  count : t.lines.length = told.length
  closes : ∀ pre op p o post, told = pre ++ .up op p o :: post → 0 < (pre.foldl (watch g limit) ⟨input, 0, []⟩).depth
  indents : ∀ pre op p o post, told = pre ++ .up op p o :: post → ∃ before below entry exit,
    pre = before ++ .down op o :: Told.eventsOfAll below ∧
    t.lines[before.length]? = some entry ∧ Shows entry (openTotal before) '-' (label g op) ∧
    t.lines[pre.length]? = some exit ∧ Shows exit (openTotal before) (outcomeLetter p.state) (label g op)
  ends : ∃ last, t.lines.getLast? = some last ∧
    Shows last 0 (outcomeLetter report.state) (plain "RNM(" ++ paint .name (g.ruleName id) ++ plain ")")

/-- Where an operator is left, one operator is open more than where it was entered. -/
theorem depth_entered (t : Trace) (before : List Event) (op : Opcode) (o : Nat) (below : List Told) :
    ((before ++ .down op o :: Told.eventsOfAll below).foldl (watch g limit) t).depth =
      (before.foldl (watch g limit) t).depth + 1 := by
  rw [List.foldl_append, List.foldl_cons, depth_eventsOfAll]
  rfl

/-- No operator of a tree is left but where one is open. -/
theorem depth_pos_of_up {u : Told} {pre post : List Event} {op : Opcode} {p : Phrase} {o : Nat}
    (hsplit : u.events = pre ++ .up op p o :: post) (t : Trace) : 0 < (pre.foldl (watch g limit) t).depth := by
  obtain ⟨before, below, rfl⟩ := Told.entered u hsplit
  rw [depth_entered]
  exact Nat.succ_pos _

/-- **A trace is as deep as operators are open,** wherever in a tree its events have got to. -/
theorem depth_add_leftTotal {u : Told} (h : ∀ e ∈ u.events, e.Known g) (input : Array Char) : ∀ {pre post : List Event},
    u.events = pre ++ post → (pre.foldl (watch g limit) ⟨input, 0, []⟩).depth + leftTotal pre = pre.countP Event.enters := by
  intro pre
  induction pre using List.reverseRecOn with
  | nil => exact fun _ => rfl
  | append_singleton pre e ih =>
    intro post hsplit
    rw [List.append_assoc, List.singleton_append] at hsplit
    have hpre := ih hsplit
    rw [List.foldl_append, leftTotal_append, List.countP_append]
    cases e with
    | start other =>
      have hknown : (Event.start other).Known g := h _ (hsplit ▸ List.mem_append_right _ List.mem_cons_self)
      exact hknown.elim
    | down op o =>
      have hdown : leftTotal [Event.down op o] = 0 ∧ [Event.down op o].countP Event.enters = 1 := ⟨rfl, rfl⟩
      show (Trace.depth _ + 1) + _ = _
      omega
    | up op p o =>
      have hup : leftTotal [Event.up op p o] = 1 ∧ [Event.up op p o].countP Event.enters = 0 := ⟨rfl, rfl⟩
      have hpos : 0 < (pre.foldl (watch g limit) ⟨input, 0, []⟩).depth := depth_pos_of_up hsplit _
      show (Trace.depth _ - 1) + _ = _
      omega

theorem depth_eq_openTotal {u : Told} (h : ∀ e ∈ u.events, e.Known g) (input : Array Char) {pre post : List Event}
    (hsplit : u.events = pre ++ post) : (pre.foldl (watch g limit) ⟨input, 0, []⟩).depth = openTotal pre :=
  Nat.eq_sub_of_add_eq (depth_add_leftTotal h input hsplit)

theorem depicts_events {id : RuleId} {p : Phrase} {below : List Told}
    (h : ∀ e ∈ (Told.mk (.rnm id) 0 p below).events, e.Known g) (input : Array Char) {report : MatchReport}
    (hstate : report.state = p.state) :
    Depicts g limit input id report (Told.mk (.rnm id) 0 p below).events
      ((Told.mk (.rnm id) 0 p below).events.foldl (watch g limit) ⟨input, 0, []⟩) where
  count := (length_lines h _).trans (Nat.zero_add _)
  closes pre op p o post hsplit := depth_pos_of_up hsplit _
  indents pre op p o post hsplit := by
    obtain ⟨before, below, rfl⟩ := Told.entered _ hsplit
    have hdepth : (before.foldl (watch g limit) ⟨input, 0, []⟩).depth = openTotal before :=
      depth_eq_openTotal h input (hsplit.trans (List.append_assoc ..))
    rw [hsplit] at h ⊢
    refine ⟨before, below, line g limit (before.foldl (watch g limit) ⟨input, 0, []⟩) (.down op o),
      line g limit ((before ++ .down op o :: Told.eventsOfAll below).foldl (watch g limit) ⟨input, 0, []⟩) (.up op p o),
      rfl, ?_, ?_, getElem?_line h rfl, ?_⟩
    · rw [List.append_assoc, List.cons_append] at h ⊢
      exact getElem?_line h rfl
    · rw [← hdepth]
      exact shows_downLine ..
    · rw [line, depth_entered, Nat.add_sub_cancel, hdepth]
      exact shows_upLine ..
  ends := by
    have hevents : (Told.mk (.rnm id) 0 p below).events =
        .down (.rnm id) 0 :: Told.eventsOfAll below ++ [.up (.rnm id) p 0] := rfl
    have hdepth : (List.foldl (watch g limit) ⟨input, 0, []⟩ (.down (.rnm id) 0 :: Told.eventsOfAll below)).depth = 1 :=
      depth_entered ⟨input, 0, []⟩ [] (.rnm id) 0 below
    -- the last event leaves the start rule, when all below it has been told
    rw [hevents] at h ⊢
    rw [List.getLast?_eq_getElem?, length_lines h, List.length_append, List.length_singleton]
    refine ⟨_, (congrArg _ (Nat.zero_add _)).trans (getElem?_line h rfl), ?_⟩
    rw [line, hdepth, hstate]
    exact shows_upLine ..

/-- **Lines that lack line feeds** are what the listing is cut into at its line feeds. -/
theorem LinesLack.splitOn_listing {t : Trace} (h : t.LinesLack '\n') (colored : Bool) :
    (∀ line ∈ t.lines, '\n' ∉ line.render colored) ∧
      (t.listing.render colored).splitOn '\n' = t.lines.map (Styled.render colored) ++ [[]] := by
  have hlines : ∀ line ∈ t.lines, '\n' ∉ line.render colored := fun line hline =>
    (h line hline).not_mem_render (by decide) colored
  rw [Trace.listing, Styled.render_lines, Styled.splitOn_unlines (List.forall_mem_map.2 hlines)]
  exact ⟨hlines, rfl⟩

end Trace

/-- The events of an attempt that came to an end are its start and those of a tree, which refer to what there is. -/
theorem Matcher.tells_of_attempt {D : Type} {m : Matcher D} (hg : m.grammar.WellFormed) {a : Attempt D}
    {report : MatchReport} (h : (m.attempt .record a []).result = .ok report) :
    ∃ id p below, m.grammar.ruleId? a.start = some id ∧ report.state = p.state ∧
      m.events a = .start a.input :: (Told.mk (.rnm id) 0 p below).events ∧
      ∀ e ∈ (Told.mk (.rnm id) 0 p below).events, e.Known m.grammar := by
  obtain ⟨id, hid, hstart⟩ := attempt_eq_ok h
  obtain ⟨p, below, -, hstate, -, htold⟩ := tellsTree_of_parseFrom hg (Grammar.ruleId?_lt hid) (hstart ▸ h)
  obtain ⟨told, hevents, hknown⟩ := events_of_begun (a := a) hg (by rw [h]; intro e he; cases he)
  have htree : m.events a = .start a.input :: (Told.mk (.rnm id) 0 p below).events := by
    rw [events, hstart, htold]
  obtain rfl := (List.cons.inj (hevents.symm.trans htree)).2
  exact ⟨id, p, below, hid, hstate, htree, hknown⟩

/-- **Trace, tally and result agree.**  If an attempt comes to an end, watched by a trace, whatever it held before, and by
a new tally, then the lines of the trace are twice as many as the operators counted, and depict what was told; the
operators counted are no more than the hits, and as many exactly if no lookahead was counted; and if no name holds a
line feed, the lines are what the listing is cut into at its line feeds.  The counts of the rules, and those of the
terminals, add up to those of the references to them, after any attempts, however they came out. -/
theorem trace_agrees {D : Type} {rules : List (Text × List Opcode)} {udts : List (Text × Bool)} {m : Matcher D}
    (htables : Grammar.ofTables rules udts = .ok m.grammar) (limit : Nat) (t : Trace) :
    (∀ (a : Attempt D) report,
      let watch := (Trace.watch m.grammar limit).both Tally.watch
      let after := m.attempt watch a (t, Tally.empty m.grammar)
      let trace := after.seen.1
      let tally := after.seen.2
      after.result = .ok report →
      trace.lines.length = 2 * tally.total.total ∧
      Counts.sum tally.rules.toList = tally.operator .rnm ∧ Counts.sum tally.udts.toList = tally.operator .udt ∧
      tally.total.total ≤ report.hits ∧
      (tally.total.total = report.hits ↔ tally.operator .and = .zero ∧ tally.operator .not = .zero) ∧
      (∃ id told, m.grammar.ruleId? a.start = some id ∧ m.events a = .start a.input :: told ∧
        after.seen = (m.events a).foldl watch (t, Tally.empty m.grammar) ∧
        Trace.Depicts m.grammar limit a.input id report told trace) ∧
      (m.grammar.NamesLack '\n' → ∀ colored, (∀ line ∈ trace.lines, '\n' ∉ line.render colored) ∧
        (trace.listing.render colored).splitOn '\n' = trace.lines.map (Styled.render colored) ++ [[]])) ∧
    ∀ history : List (Attempt D),
      let tally := m.attemptAll Tally.watch history (Tally.empty m.grammar)
      Counts.sum tally.rules.toList = tally.operator .rnm ∧ Counts.sum tally.udts.toList = tally.operator .udt := by
  have hg := Grammar.wellFormed_ofTables htables
  have hsums : ∀ history : List (Attempt D),
      (m.attemptAll Tally.watch history (Tally.empty m.grammar)).Balanced m.grammar :=
    fun history => Tally.balanced_attemptAll hg history (Tally.balanced_empty _)
  refine ⟨fun a report => ?_, fun history => ⟨(hsums history).rules, (hsums history).udts⟩⟩
  intro watch after trace tally hok
  have hrecord : (m.attempt .record a []).result = .ok report :=
    ((m.indifferent_attempt hg a).result .record watch [] _).trans hok
  obtain ⟨id, p, below, hid, hstate, hevents, hknown⟩ := Matcher.tells_of_attempt hg hrecord
  obtain ⟨hle, hexact⟩ := Matcher.hits_of_attempt hg hrecord
  have hseen : after.seen = (m.events a).foldl watch (t, Tally.empty m.grammar) := Matcher.attempt_seen hg a _
  -- the start has cleared what the trace held before
  have htrace : trace = (Told.mk (.rnm id) 0 p below).events.foldl (Trace.watch m.grammar limit) ⟨a.input, 0, []⟩ := by
    show after.seen.1 = _
    rw [hseen, Watcher.foldl_both, hevents]
    rfl
  have htally : tally = (m.events a).foldl Tally.watch (Tally.empty m.grammar) := by
    show after.seen.2 = _
    rw [hseen, Watcher.foldl_both]
  have hbalanced : tally.Balanced m.grammar := by
    rw [htally, ← Matcher.attempt_seen hg a]
    exact hsums [a]
  have hdepicts : Trace.Depicts m.grammar limit a.input id report (Told.mk (.rnm id) 0 p below).events trace := by
    rw [htrace]
    exact Trace.depicts_events hknown a.input hstate
  refine ⟨?_, hbalanced.rules, hbalanced.udts, ?_, ?_, ⟨id, _, hid, hevents, hseen, hdepicts⟩, fun hnames => ?_⟩
  · rw [hdepicts.count, htally, Tally.total_foldl_empty, hevents]
    exact Told.length_events _
  · rw [htally, Tally.total_foldl_empty]
    exact hle
  · rw [htally, Tally.total_foldl_empty, Tally.operator_foldl_empty, Tally.operator_foldl_empty, hexact, lookaheadCount,
      Nat.add_eq_zero_iff]
  · refine Trace.LinesLack.splitOn_listing ?_
    rw [htrace]
    exact Trace.LinesLack.foldl rfl hnames (fun _ hmem => absurd hmem List.not_mem_nil) _

theorem trace_agrees_peek :
    Grammar.ofTables peekTables.1 peekTables.2 = .ok peekMatcher.grammar ∧ peekMatcher.grammar.NamesLack '\n' ∧
    let watch := (Trace.watch peekMatcher.grammar 100).both Tally.watch
    let after := peekMatcher.attempt watch ⟨"peek", #['b'], 0, 9⟩ (Trace.empty, Tally.empty peekMatcher.grammar)
    after.result = .ok ⟨true, .matched, 1, 1, 1, 4, 5⟩ ∧
    after.seen.1.lines.length = 2 * after.seen.2.total.total ∧ after.seen.2.total.total < 5 ∧
    (∃ last, after.seen.1.lines.getLast? = some last ∧
      Trace.Shows last 0 'M' (plain "RNM(" ++ paint .name "peek" ++ plain ")")) ∧
    after.seen.1.lines.map (Styled.render false) = ["|-|[RNM(peek)]b", ".|-|[CAT]b", "..|-|[NOT]b",
      "..|E|[NOT]''", "..|-|[TBS(b)]b", "..|M|[TBS(b)]'b'", ".|M|[CAT]'b'", "|M|[RNM(peek)]'b'"] ∧
    (after.seen.1.listing.render true).splitOn '\n' = after.seen.1.lines.map (Styled.render true) ++ [[]] := by
  have hg : Grammar.ofTables peekTables.1 peekTables.2 = .ok peekMatcher.grammar := rfl
  have hnames : peekMatcher.grammar.NamesLack '\n' := by
    constructor <;> simp [peekMatcher]
  have h := (trace_agrees hg 100 Trace.empty).1 ⟨"peek", #['b'], 0, 9⟩ ⟨true, .matched, 1, 1, 1, 4, 5⟩ rfl
  obtain ⟨hlines, -, -, -, -, ⟨id, told, hid, -, -, hdepicts⟩, hlisting⟩ := h
  obtain rfl : ⟨0⟩ = id := Option.some.inj hid
  exact ⟨hg, hnames, rfl, hlines, by decide, hdepicts.ends, by decide +kernel, (hlisting hnames true).2⟩

end SignIn
