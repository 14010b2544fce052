import SignIn.Proofs.Match.Watchers
/-!
# How far a match reached

The engine counts the end of every operator that it leaves as reached, also of one that failed, whose end is where it
began.  But outside lookahead an operator begins only at the start of the input or where some success has been told to
end.  So what a match reached is the furthest end of a success (`Matcher.reach_eq_furthest`).
-/
namespace SignIn

/-- **Where an event tells that a success ended;** the start of the input, if it tells of none. -/
def Event.reached : Event → Nat
  | .up _ p o => if p.isSuccess then o + p.length else 0
  | .start _ | .down _ _ => 0

/-- **The furthest end of a success** among events. -/
def furthest (events : List Event) : Nat := (events.map Event.reached).foldr max 0

theorem furthest_cons (e : Event) (events : List Event) : furthest (e :: events) = max e.reached (furthest events) := rfl

variable {D : Type} {m : Matcher D} {input : Array Char} {lax : Prop} {eval : Evaluator D (List Event)}
  {code : Array Opcode} {i o n : Nat} {op : Opcode} {p : Phrase} {r r' r'' : Run D (List Event)}

namespace Run

/-- **A run where an operator may begin:** it has reached what was told, and the offset unless a lookahead is open. -/
structure Begins (o : Nat) (r : Run D (List Event)) : Prop where
  reach : r.reach = furthest r.seen
  le : r.lookahead = 0 → o ≤ r.reach

/-- **A run that went on,** and has reached what was told, and no less than before. -/
structure Climbs (r r' : Run D (List Event)) : Prop where
  lookahead : r'.lookahead = r.lookahead
  reach : r'.reach = furthest r'.seen
  le : r.reach ≤ r'.reach

theorem Begins.refl (h : r.Begins o) : r.Climbs r := ⟨rfl, h.reach, Nat.le_refl _⟩

theorem Climbs.trans (h : r.Climbs r') (h' : r'.Climbs r'') : r.Climbs r'' :=
  ⟨h'.lookahead.trans h.lookahead, h'.reach, Nat.le_trans h.le h'.le⟩

theorem Begins.climbs (h : r.Begins o) (h' : r.Climbs r') : r'.Begins o :=
  ⟨h'.reach, fun hl => Nat.le_trans (h.le (h'.lookahead ▸ hl)) h'.le⟩

/-- **A run that went on over a number of characters,** from the offset where an operator began. -/
structure Covers (size o : Nat) (r : Run D (List Event)) (n : Nat) (r' : Run D (List Event)) : Prop where
  within : o + n ≤ size
  climbs : r.Climbs r'
  reached : r.lookahead = 0 → o + n ≤ r'.reach

theorem Begins.covers (h : r.Begins o) (ho : o ≤ input.size) : Covers input.size o r 0 r := ⟨ho, h.refl, h.le⟩

end Run

namespace Engine

/-- What an evaluator makes of an operator, a run covers. -/
def CoversAt (input : Array Char) (lax : Prop) (eval : Evaluator D (List Event)) (code : Array Opcode) : Prop :=
  ∀ i o r, i < code.size → o ≤ input.size → r.Begins o →
    (eval code i o r).Yields lax (fun p r' => p.Settled ∧ Run.Covers input.size o r p.length r') fun _ _ => True

/-- **An operand goes on** from where those before it ended, which a success has reached. -/
theorem goesOn_covers (he : CoversAt input lax eval code) {c : Nat} (hc : c < code.size) :
    GoesOn lax eval code o (Run.Covers input.size o r) (fun _ _ => True) c := by
  intro n r' h
  have hbegins : r'.Begins (o + n) := ⟨h.climbs.reach, fun hl => h.reached (h.climbs.lookahead ▸ hl)⟩
  refine (he c (o + n) r' hc h.within hbegins).mono (fun p r'' hp => ?_) fun _ _ _ => trivial
  obtain ⟨hsettled, hcovers⟩ := hp
  refine ⟨hsettled, ?_, h.climbs.trans hcovers.climbs, fun hl => ?_⟩
  · rw [← Nat.add_assoc]
    exact hcovers.within
  · rw [← Nat.add_assoc]
    exact hcovers.reached (h.climbs.lookahead.trans hl)

/-- A run has gone on, and its operator has a phrase that fits. -/
def Climbed (input : Array Char) (o : Nat) (r : Run D (List Event)) (p : Phrase) (r' : Run D (List Event)) : Prop :=
  p.Fits input.size o ∧ r.Climbs r'

theorem climbed_of_row (h : EndsRow (Run.Covers input.size o r) p r') : Climbed input o r p r' := by
  obtain ⟨n, hcovers, rfl | rfl⟩ := h
  · exact ⟨Phrase.fits_ofLength.2 hcovers.within, hcovers.climbs⟩
  · exact ⟨Phrase.fits_fail.2 (Nat.le_trans (Nat.le_add_right _ _) hcovers.within), hcovers.climbs⟩

theorem lookahead_climbs (he : CoversAt input lax eval code) {c : Nat} (hc : c < code.size) (ho : o ≤ input.size)
    (hr : r.Begins o) (positive : Bool) :
    (lookahead (eval code c o) positive r).Yields lax (Climbed input o r) fun _ _ => True := by
  -- with a lookahead open, nothing has to be reached
  have hraised : ({ r with lookahead := r.lookahead + 1 } : Run D (List Event)).Begins o :=
    ⟨hr.reach, fun hl => absurd hl (Nat.succ_ne_zero _)⟩
  refine (he c o _ hc ho hraised).andThen fun p r' hp => ⟨?_, ?_⟩
  · split
    · exact Phrase.fits_empty.2 ho
    · exact Phrase.fits_fail.2 ho
  · have hclimbs := hp.2.climbs
    refine ⟨?_, hclimbs.reach, hclimbs.le⟩
    show r'.lookahead - 1 = r.lookahead
    rw [hclimbs.lookahead]
    rfl

/-- What an answer of a callback brings is no event. -/
theorem climbs_data (d : D) (h : r.Climbs r') : r.Climbs { r' with data := d } := ⟨h.lookahead, h.reach, h.le⟩

theorem rnm_climbs (hg : m.grammar.WellFormed) (he : ∀ code, m.grammar.Code code → CoversAt input lax eval code)
    {id : RuleId} (hid : id.index < m.grammar.rules.size) (ho : o ≤ input.size) (hr : r.Begins o) :
    (callRule ⟨m, .record, input⟩ eval id o r).Yields lax (Climbed input o r) fun _ _ => True := by
  refine callRule_keeps hg hid ho (fun _ d h => climbs_data d h) (fun code hcode r' h => ?_) hr.refl
  refine (he _ hcode 0 o r' hcode.root ho (hr.climbs h)).mono (fun p r'' hp => ?_) fun _ _ h => h
  exact ⟨⟨hp.1, hp.2.within⟩, h.trans hp.2.climbs⟩

theorem udt_climbs {id : UdtId} (hid : id.index < m.grammar.udts.size) (ho : o ≤ input.size) (hr : r.Begins o) :
    (callUdt ⟨m, .record, input⟩ id o r).Yields lax (Climbed input o r) fun _ _ => True :=
  callUdt_keeps hid ho (fun _ d h => climbs_data d h) hr.refl

theorem apply_climbs (hg : m.grammar.WellFormed) (hc : m.grammar.Code code)
    (he : ∀ code, m.grammar.Code code → CoversAt input lax eval code) (hop : code[i]? = some op) (ho : o ≤ input.size)
    (hr : r.Begins o) : (apply ⟨m, .record, input⟩ eval code op o r).Yields lax (Climbed input o r) fun _ _ => True := by
  have hwithin := hc.within i op hop
  refine apply_yields ho (fun c hcm => goesOn_covers (he code hc) (hwithin.children c hcm).2) (fun _ => hr.covers ho)
    (fun _ _ p r' h => climbed_of_row h) (fun _ p hp => ⟨hp, hr.refl⟩) (fun c positive hcm => ?_) (fun id hid => ?_)
    fun id hid => ?_
  · rcases hcm with rfl | rfl <;>
      exact lookahead_climbs (he code hc) (hwithin.children c (List.mem_singleton_self c)).2 ho hr positive
  · subst hid
    exact rnm_climbs hg he (hwithin.rule id rfl) ho hr
  · subst hid
    exact udt_climbs (hwithin.udt id rfl) ho hr

/-- **What is counted as reached when an operator is left,** is what is told; a failure adds nothing to either. -/
theorem leave_covers (hr : r.Begins o) (h : Climbed input o (enter ⟨m, .record, input⟩ op o r) p r') :
    p.Settled ∧ Run.Covers input.size o r p.length (leave ⟨m, .record, input⟩ op o p (decide (r.lookahead = 0)) r') := by
  obtain ⟨⟨hsettled, hwithin⟩, hlookahead, hreach, hle⟩ := h
  have hle : r.reach ≤ r'.reach := hle
  by_cases hl : r.lookahead = 0
  · have ho := Nat.le_trans (hr.le hl) hle
    refine ⟨hsettled, hwithin, ⟨hlookahead, ?_, ?_⟩, fun _ => ?_⟩
    · simp only [leave, hl, decide_true, if_true, Watcher.record, furthest_cons, Event.reached, ← hreach]
      cases hs : p.isSuccess with
      | true =>
        rw [if_pos rfl]
        exact Nat.max_comm _ _
      | false =>
        have hlength : p.length = 0 := by
          refine length_of_not_matched hsettled fun hm => ?_
          rw [Phrase.isSuccess, hm] at hs
          cases hs
        rw [hlength, Nat.add_zero, if_neg Bool.false_ne_true, Nat.zero_max]
        exact Nat.max_eq_left ho
    · simp only [leave, hl, decide_true, if_true]
      exact Nat.le_trans hle (Nat.le_max_left _ _)
    · simp only [leave, hl, decide_true, if_true]
      exact Nat.le_max_right _ _
  · refine ⟨hsettled, hwithin, ⟨hlookahead, ?_, ?_⟩, fun h => absurd h hl⟩
    · simpa only [leave, hl, decide_false, Bool.false_eq_true, if_false] using hreach
    · simpa only [leave, hl, decide_false, Bool.false_eq_true, if_false] using hle

theorem step_covers (hg : m.grammar.WellFormed) (hc : m.grammar.Code code)
    (he : ∀ code, m.grammar.Code code → CoversAt input lax eval code) :
    CoversAt input lax (step ⟨m, .record, input⟩ eval) code := by
  intro i o r hi ho hr
  have hop := Array.getElem?_eq_getElem hi
  unfold step
  simp only [hop]
  have hentered : (enter ⟨m, .record, input⟩ code[i] o r).Begins o := by
    refine ⟨?_, hr.le⟩
    unfold enter
    dsimp only
    split
    · rw [hr.reach, Watcher.record, furthest_cons, Event.reached, Nat.zero_max]
    · exact hr.reach
  exact (apply_climbs hg hc he hop ho hentered).andThen fun p r' hp => leave_covers hr hp

theorem execute_covers (hg : m.grammar.WellFormed) :
    ∀ (depth : Nat) {code : Array Opcode}, m.grammar.Code code →
      CoversAt input True (execute ⟨m, .record, input⟩ depth) code
  | 0, _, _ => fun _ _ _ _ _ _ => trivial
  | depth + 1, _, hc => step_covers hg hc fun _ => execute_covers hg depth

end Engine

namespace Matcher

variable {σ : Type} {id : RuleId} {data : D} {watch : Watcher σ} {seen : σ} {report : MatchReport}

/-- **A match that came to its end reached the furthest end of a success** that was told, whoever watched. -/
theorem reach_eq_furthest (hg : m.grammar.WellFormed) (hid : id.index < m.grammar.rules.size) {depth : Nat}
    (h : (m.parseFrom watch depth id input data seen).result = .ok report) :
    report.reach = furthest (m.parseFrom .record depth id input data []).seen := by
  have hrun : Indifferent fun {σ} (f : Watcher σ) x => m.parseFrom f depth id input data x :=
    indifferent_of_mirrors fun hP _ _ hxy => parseFrom_mirrors hg hP depth hid input data hxy
  rw [hrun.result watch .record seen []] at h
  obtain ⟨p, r, hp, rfl⟩ := parseFrom_eq_ok h
  have hbegins : (firstRun Watcher.record input data []).Begins 0 := ⟨rfl, fun _ => Nat.le_refl _⟩
  have hcovers := Engine.execute_covers hg depth (Grammar.code_rnm hid) 0 0 _ Nat.one_pos (Nat.zero_le input.size)
    hbegins
  simp only [parseFrom, hp]
  exact (hcovers.ended hp).2.climbs.reach

end Matcher
end SignIn
