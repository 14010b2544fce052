import SignIn.Proofs.Match.Safety
/-!
# What a match reports lies within its input

The engine's safety as those see it who call it and those who watch it: the report of a finished match is
consistent, and every event and every record of a tree tells of a stretch of the input.
-/
namespace SignIn

/-! ## Events -/

theorem Watcher.record_keeps (size : Nat) :
    Watcher.Keeps .record size (fun (_ : Unit) seen => ∀ e ∈ seen, e.Fits size) (fun seen => ∀ e ∈ seen, e.Fits size)
      (fun _ _ _ => ()) where
  down _ h ho := List.forall_mem_cons.2 ⟨ho, h⟩
  up _ h hp := List.forall_mem_cons.2 ⟨hp, h⟩
  broken h := h

/-! ## Trees -/

/-- **A node fits an input** of a size if it and all nodes below it lie within it. -/
inductive Node.Fits (size : Nat) : Node → Prop where
  | mk {symbol offset length children} (here : offset + length ≤ size) (below : ∀ c ∈ children, Node.Fits size c) :
    Node.Fits size (.mk symbol offset length children)

/-- A record that lies within the input. -/
def NodeRecord.Fits (size : Nat) (r : NodeRecord) : Prop := r.offset + r.length ≤ size

/-- An open operator that lies within the input, with the nodes below it. -/
structure Frame.Fits (size : Nat) (f : Frame) : Prop where
  offset : f.offset ≤ size
  below : ∀ n ∈ f.newest, n.Fits size

/-- **A tree within the input.** -/
structure Tree.Fits (size : Nat) (t : Tree) : Prop where
  done : ∀ n ∈ t.newest, n.Fits size
  opened : ∀ f ∈ t.frames, f.Fits size

mutual

theorem Node.records_fit {size : Nat} : ∀ (n : Node) (start : Nat), n.Fits size → ∀ r ∈ n.records start, r.Fits size
  | .mk symbol offset length children, start, .mk here below, r, hr => by
    simp only [Node.records, List.mem_cons, List.mem_append, List.not_mem_nil, or_false] at hr
    rcases hr with rfl | hr | rfl
    · exact here
    · exact Node.recordsOfAll_fit children (start + 1) below r hr
    · exact here

theorem Node.recordsOfAll_fit {size : Nat} :
    ∀ (ns : List Node) (start : Nat), (∀ n ∈ ns, n.Fits size) → ∀ r ∈ Node.recordsOfAll start ns, r.Fits size
  | [], _, _, r, hr => by simp [Node.recordsOfAll] at hr
  | n :: ns, start, h, r, hr => by
    obtain ⟨hn, hns⟩ := List.forall_mem_cons.1 h
    simp only [Node.recordsOfAll, List.mem_append] at hr
    rcases hr with hr | hr
    · exact Node.records_fit n start hn r hr
    · exact Node.recordsOfAll_fit ns _ hns r hr

end

theorem Frame.records_fit {size start : Nat} {f : Frame} (h : f.Fits size) : ∀ r ∈ f.records start, r.Fits size := by
  intro r hr
  have hbelow : ∀ n ∈ f.newest.reverse, n.Fits size := fun n hn => h.below n (List.mem_reverse.1 hn)
  unfold Frame.records at hr
  split at hr
  · rcases List.mem_cons.1 hr with rfl | hr
    · exact h.offset
    · exact Node.recordsOfAll_fit _ _ hbelow r hr
  · exact Node.recordsOfAll_fit _ _ hbelow r hr

theorem Frame.recordsOfAll_fit {size : Nat} :
    ∀ (fs : List Frame) (start : Nat), (∀ f ∈ fs, f.Fits size) → ∀ r ∈ Frame.recordsOfAll start fs, r.Fits size
  | [], _, _, r, hr => by simp [Frame.recordsOfAll] at hr
  | f :: fs, start, h, r, hr => by
    obtain ⟨hf, hfs⟩ := List.forall_mem_cons.1 h
    simp only [Frame.recordsOfAll, List.mem_append] at hr
    rcases hr with hr | hr
    · exact Frame.records_fit hf r hr
    · exact Frame.recordsOfAll_fit fs _ hfs r hr

/-- **The records of a tree within the input lie within it.** -/
theorem Tree.Fits.records {size : Nat} {t : Tree} (h : t.Fits size) : ∀ r ∈ t.records, r.Fits size := by
  intro r hr
  simp only [Tree.records, List.mem_append] at hr
  rcases hr with hr | hr
  · exact Node.recordsOfAll_fit _ _ (fun n hn => h.done n (List.mem_reverse.1 hn)) r hr
  · exact Frame.recordsOfAll_fit _ _ (fun f hf => h.opened f (List.mem_reverse.1 hf)) r hr

theorem Tree.fits_nothing {size : Nat} (input : Array Char) : Tree.Fits size ⟨input, [], []⟩ :=
  ⟨fun _ h => (by cases h), fun _ h => (by cases h)⟩

theorem Tree.Fits.add {size : Nat} {t : Tree} (h : t.Fits size) {ns : List Node} (hn : ∀ n ∈ ns, n.Fits size) :
    (t.add ns).Fits size := by
  unfold Tree.add
  split
  · exact ⟨List.forall_mem_append.2 ⟨hn, h.done⟩, h.opened⟩
  · rename_i f fs hf
    have hfs := h.opened
    rw [hf, List.forall_mem_cons] at hfs
    exact ⟨h.done, List.forall_mem_cons.2 ⟨⟨hfs.1.offset, List.forall_mem_append.2 ⟨hn, hfs.1.below⟩⟩, hfs.2⟩⟩

theorem Tree.completed_fit {size : Nat} {f : Frame} {p : Phrase} (hf : f.Fits size) (hp : p.Fits size f.offset) :
    ∀ n ∈ Tree.completed f p, n.Fits size := by
  intro n hn
  unfold Tree.completed at hn
  split at hn
  · cases hn
  · split at hn
    · cases List.mem_singleton.1 hn
      exact .mk hp.2 fun c hc => hf.below c (List.mem_reverse.1 hc)
    · exact hf.below n hn

/-- The offsets at which the open operators began. -/
def Tree.offsets (t : Tree) : List Nat := t.frames.map Frame.offset

theorem Tree.offsets_add (t : Tree) (ns : List Node) : (t.add ns).offsets = t.offsets := by
  unfold Tree.add Tree.offsets
  split
  · rfl
  · rename_i f fs hf
    rw [hf]
    rfl

/-- **The tree's watcher keeps the offsets of the open operators,** so that a node ends where its phrase does. -/
theorem Tree.watch_keeps (selection : Selection) (size : Nat) :
    Watcher.Keeps (Tree.watch selection) size (fun offsets t => t.offsets = offsets ∧ t.Fits size) (Tree.Fits size)
      (fun offsets _ o => o :: offsets) where
  down _ h ho :=
    ⟨congrArg (_ :: ·) h.1, h.2.done, List.forall_mem_cons.2 ⟨⟨ho, fun _ hn => by cases hn⟩, h.2.opened⟩⟩
  up {k seen o p} op h hp := by
    obtain ⟨ho, hf⟩ := h
    unfold Tree.offsets at ho
    have hfs := hf.opened
    simp only [Tree.watch]
    cases hc : seen.frames with
    | nil => simp [hc] at ho
    | cons f fs =>
      rw [hc] at ho hfs
      obtain ⟨ho, hos⟩ := List.cons.inj ho
      rw [List.forall_mem_cons] at hfs
      have ht : Tree.Fits size { seen with frames := fs } := ⟨hf.done, hfs.2⟩
      exact ⟨by rw [Tree.offsets_add]; exact hos, ht.add (Tree.completed_fit hfs.1 (by rw [ho]; exact hp))⟩
  broken h := h.2

/-! ## Reports -/

/-- **A report agrees with itself and with the size of the input.** -/
structure MatchReport.Consistent (report : MatchReport) (size : Nat) : Prop where
  length : report.length = size
  success : report.success = true ↔
    (report.state = .matched ∨ report.state = .emptyMatch) ∧ report.matched = report.length
  decided : report.state ≠ .active
  filled : 0 < report.matched ↔ report.state = .matched
  unfilled : report.state = .noMatch ∨ report.state = .emptyMatch → report.matched = 0
  matched_le : report.matched ≤ report.reach
  reach_le : report.reach ≤ report.length

theorem MatchState.isSuccess_iff (state : MatchState) :
    state.isSuccess = true ↔ state = .matched ∨ state = .emptyMatch := by
  cases state <;> decide

theorem Matcher.report_consistent {D σ : Type} {input : Array Char} {p : Phrase} {r : Run D σ}
    (hp : p.Fits input.size 0) (hreach : p.length ≤ r.reach) (hr : r.reach ≤ input.size) :
    (report input p r).Consistent input.size where
  length := rfl
  success := by
    rw [← MatchState.isSuccess_iff]
    simp only [report, Phrase.isSuccess, Bool.and_eq_true, decide_eq_true_eq]
  decided := hp.1.1
  filled := hp.1.2
  unfilled h := by
    have : p.state ≠ .matched := by
      rcases h with h | h <;> (intro hm; rw [show (report input p r).state = p.state from rfl, hm] at h; cases h)
    exact Nat.eq_zero_of_not_pos fun hpos => this (hp.1.2.1 hpos)
  matched_le := hreach
  reach_le := hr

namespace Matcher

variable {D σ κ : Type} {m : Matcher D} {watch : Watcher σ} {input : Array Char} {I : κ → σ → Prop} {J : σ → Prop}
  {push : κ → Opcode → Nat → κ}

/-- The first call of a match passes its checks. -/
theorem first_agree (hg : m.grammar.WellFormed) (hw : watch.Keeps input.size I J push) {id : RuleId}
    (hid : id.index < m.grammar.rules.size) {k : κ} (data : D) (seen : σ) (hk : I k (watch seen (.start input)))
    (depth : Nat) :
    let s : Setting D σ := ⟨m, watch, input⟩
    Outcome.Agree False (Phrase.Fits input.size 0) (Run.Same (Run.Kept input.size (I k)))
      (Run.Same (Run.Kept input.size J))
      (Engine.executeChecked s depth #[.rnm id] 0 0 (firstRun watch input data seen))
      (Engine.execute s depth #[.rnm id] 0 0 (firstRun watch input data seen)) :=
  Engine.executeChecked_agree hg hw depth k _ 0 0 _ (Grammar.code_rnm hid) Nat.one_pos (Nat.zero_le _)
    ⟨hk, Nat.zero_le _⟩

/-- What a match reached is at least what it matched: its first operator is observed. -/
theorem length_le_reach {s : Setting D σ} {depth : Nat} {id : RuleId} {data : D} {seen : σ} {p : Phrase} {r : Run D σ}
    (h : Engine.execute s depth #[.rnm id] 0 0 (firstRun s.watch s.input data seen) = .ended p r) :
    p.length ≤ r.reach := by
  cases depth with
  | zero => cases h
  | succ depth =>
    obtain ⟨q, t, -, hq⟩ := Outcome.andThen_eq_ended.1 h
    obtain ⟨rfl, rfl⟩ := Outcome.ended.inj hq
    show q.length ≤ Nat.max t.reach (0 + q.length)
    rw [Nat.zero_add]
    exact Nat.le_max_right _ _

theorem parseFrom_eq_ok {depth : Nat} {id : RuleId} {data : D} {seen : σ} {report : MatchReport}
    (h : (m.parseFrom watch depth id input data seen).result = .ok report) :
    ∃ p r, Engine.execute ⟨m, watch, input⟩ depth #[.rnm id] 0 0 (firstRun watch input data seen) = .ended p r ∧
      report = Matcher.report input p r := by
  simp only [parseFrom] at h
  split at h
  · rename_i p r hp
    exact ⟨p, r, hp, (Except.ok.inj h).symm⟩
  all_goals cases h

/-- **A finished match reports what is consistent.** -/
theorem parseFrom_consistent (hg : m.grammar.WellFormed) {id : RuleId} (hid : id.index < m.grammar.rules.size)
    {depth : Nat} {data : D} {seen : σ} {report : MatchReport}
    (h : (m.parseFrom watch depth id input data seen).result = .ok report) : report.Consistent input.size := by
  obtain ⟨p, r, hp, rfl⟩ := parseFrom_eq_ok h
  have hw : watch.Keeps input.size (fun (_ : Unit) _ => True) (fun _ => True) (fun _ _ _ => ()) :=
    ⟨fun _ _ _ => trivial, fun _ _ _ => trivial, fun _ => trivial⟩
  have ha := first_agree hg hw hid data seen (k := ()) trivial depth
  simp only [hp] at ha
  cases hc : Engine.executeChecked ⟨m, watch, input⟩ depth #[.rnm id] 0 0 (firstRun watch input data seen) <;>
    rw [hc] at ha <;> simp only [Outcome.Agree] at ha
  · obtain ⟨rfl, hfits, rfl, hkept⟩ := ha
    exact report_consistent hfits (length_le_reach hp) hkept.reach
  · simp at ha

/-- **What a watcher keeps, a match from a rule keeps,** however it comes out. -/
theorem parseFrom_kept (hg : m.grammar.WellFormed) (hw : watch.Keeps input.size I J push) {id : RuleId}
    (hid : id.index < m.grammar.rules.size) {k : κ} (data : D) {seen : σ} (hseen : J seen)
    (hk : I k (watch seen (.start input))) (depth : Nat) :
    J (m.parseFrom watch depth id input data seen).seen := by
  have ha := first_agree hg hw hid data seen hk depth
  simp only [parseFrom]
  simp only at ha
  generalize Engine.execute ⟨m, watch, input⟩ depth #[.rnm id] 0 0 (firstRun watch input data seen) = out at ha ⊢
  generalize Engine.executeChecked ⟨m, watch, input⟩ depth #[.rnm id] 0 0 (firstRun watch input data seen) = out' at ha
  cases out with
  | ended p r =>
    cases out' <;> simp only [Outcome.Agree] at ha
    · exact hw.broken (ha.2.2.1 ▸ ha.2.2.2.seen)
    · simp at ha
  | broken e r =>
    cases out' <;> simp only [Outcome.Agree] at ha
    · exact ha.2.1 ▸ ha.2.2.seen
    · simp at ha
  | stuck => exact hseen
  | starved => exact hseen

/-- A match from the rule of a name is a match from a rule, unless it is refused. -/
theorem parseWith_eq_ok {start : Text} {data : D} {seen : σ} {report : MatchReport}
    (h : (m.parseWith watch start input data seen).result = .ok report) :
    ∃ id, m.grammar.ruleId? start = some id ∧ m.unboundUdt? = none ∧
      m.parseWith watch start input data seen = m.parseFrom watch (m.depthFor input) id input data seen := by
  unfold parseWith at h ⊢
  split at h
  · cases h
  rename_i id hid
  split at h
  · cases h
  rename_i hu
  exact ⟨id, hid, hu, rfl⟩

end Matcher

/-- **The engine is safe under any callbacks.**  For a grammar that raw tables make, and a start rule of it, a match
to any depth passes the checks around each of its operators and is never stuck; what it reports is consistent; and
all that its events and the records of its tree tell of lies within the input. -/
theorem parse_safe {D σ : Type} {rules : List (Text × List Opcode)} {udts : List (Text × Bool)} {m : Matcher D}
    (hg : Grammar.ofTables rules udts = .ok m.grammar) {start : Text} {id : RuleId}
    (hid : m.grammar.ruleId? start = some id) (watch : Watcher σ) (input : Array Char) (data : D) (seen : σ)
    (depth : Nat) :
    let s : Setting D σ := ⟨m, watch, input⟩
    let first := Matcher.firstRun watch input data seen
    Engine.executeChecked s depth #[.rnm id] 0 0 first = Engine.execute s depth #[.rnm id] 0 0 first ∧
    Engine.execute s depth #[.rnm id] 0 0 first ≠ .stuck ∧
    (∀ report, (m.parseFrom watch depth id input data seen).result = .ok report → report.Consistent input.size) ∧
    (∀ report, (m.parseWith watch start input data seen).result = .ok report → report.Consistent input.size) ∧
    (∀ e ∈ (m.parseFrom .record depth id input data []).seen, e.Fits input.size) ∧
    (∀ selection, ∀ r ∈ (m.parseFrom (Tree.watch selection) depth id input data .empty).seen.records,
      r.Fits input.size) := by
  have hwf := Grammar.wellFormed_ofTables hg
  have hlt := Grammar.ruleId?_lt hid
  have hw : watch.Keeps input.size (fun (_ : Unit) _ => True) (fun _ => True) (fun _ _ _ => ()) :=
    ⟨fun _ _ _ => trivial, fun _ _ _ => trivial, fun _ => trivial⟩
  obtain ⟨hsame, hstuck⟩ := (Matcher.first_agree hwf hw hlt data seen (k := ()) trivial depth).eq_and_ne_stuck
  refine ⟨hsame, hstuck, fun report h => Matcher.parseFrom_consistent hwf hlt h, fun report h => ?_, ?_,
    fun selection => ?_⟩
  · obtain ⟨id', hid', -, hp⟩ := Matcher.parseWith_eq_ok h
    rw [hp] at h
    exact Matcher.parseFrom_consistent hwf (Grammar.ruleId?_lt hid') h
  · exact Matcher.parseFrom_kept hwf (Watcher.record_keeps _) hlt data (k := ()) (by simp)
      (by simp [Watcher.record, Event.Fits]) depth
  · have hkept := Matcher.parseFrom_kept hwf (Tree.watch_keeps selection input.size) hlt data (k := [])
      (Tree.fits_nothing #[]) ⟨rfl, Tree.fits_nothing input⟩ depth
    exact hkept.records

/-- Tables of a rule that repeats a terminal, and of that terminal. -/
def pairTables : List (Text × List Opcode) × List (Text × Bool) :=
  ([("pair", [.rep 2 (some 2) 1, .udt ⟨0⟩])], [("item", true)])

/-- A matcher whose rule overrides a failed body, and whose terminal claims a character that may not be there. -/
def pairMatcher : Matcher Nat where
  grammar := ⟨#[⟨"pair", #[.rep 2 (some 2) 1, .udt ⟨0⟩]⟩], #[⟨"item", true⟩]⟩
  onRule := #[some fun p _ _ d => (if p.state = .noMatch then ⟨.matched, 1⟩ else p, d + 1)]
  onUdt := #[some fun _ _ _ d => (⟨.matched, 1⟩, d + 10)]

theorem parse_safe_pair :
    Grammar.ofTables pairTables.1 pairTables.2 = .ok pairMatcher.grammar ∧
    pairMatcher.grammar.ruleId? "PAIR" = some ⟨0⟩ ∧
    Engine.execute ⟨pairMatcher, Watcher.silent, #['a', 'b']⟩ 9 #[.rnm ⟨0⟩] 0 0
      (Matcher.firstRun Watcher.silent #['a', 'b'] 0 ()) ≠ .stuck ∧
    ∀ report, (pairMatcher.parseWith Watcher.silent "PAIR" #['a', 'b'] 0 ()).result = .ok report →
      report.Consistent 2 :=
  have hg : Grammar.ofTables pairTables.1 pairTables.2 = .ok pairMatcher.grammar := rfl
  have hid : pairMatcher.grammar.ruleId? "PAIR" = some ⟨0⟩ := rfl
  have h := parse_safe hg hid Watcher.silent #['a', 'b'] 0 () 9
  ⟨hg, hid, h.2.1, h.2.2.2.1⟩

end SignIn
