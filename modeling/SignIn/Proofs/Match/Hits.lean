import SignIn.Proofs.Match.Tallies
/-!
# How many operators were run

The engine counts every operator that it enters as a hit, and tells of those outside lookahead only.  So a match has at
least as many hits as operators that were told to be left, and more exactly if there is a lookahead among these: it has
run its operand unseen (`Matcher.hits_of_attempt`).
-/
namespace SignIn

/-- **An operator that looks ahead.** -/
def Opcode.LooksAhead (op : Opcode) : Prop := op.operator = .and ∨ op.operator = .not

instance (op : Opcode) : Decidable op.LooksAhead := inferInstanceAs (Decidable (_ ∨ _))

/-- How many lookaheads were left, of the operators that some events tell of. -/
def lookaheadCount (es : List Event) : Nat := leftCount .and es + leftCount .not es

theorem lookaheadCount_up (op : Opcode) (p : Phrase) (o : Nat) (es : List Event) :
    lookaheadCount (.up op p o :: es) = lookaheadCount es + if op.LooksAhead then 1 else 0 := by
  have hlooks : op.LooksAhead ↔ op.operator = .and ∨ op.operator = .not := Iff.rfl
  simp only [lookaheadCount, leftCount_up, hlooks]
  by_cases hand : op.operator = .and
  · simp [hand, Nat.add_right_comm]
  · simp [hand, Nat.add_assoc]

variable {D : Type} {m : Matcher D} {input : Array Char} {lax : Prop} {eval : Evaluator D (List Event)}
  {code : Array Opcode} {i o n : Nat} {op : Opcode} {p : Phrase} {r r' r'' : Run D (List Event)}

namespace Run

/-- **A run that went on and accounts for its hits:** there are no fewer than operators told to be left, and as many
exactly if no lookahead was; within a lookahead nothing was told. -/
structure Accounts (r r' : Run D (List Event)) : Prop where
  lookahead : r'.lookahead = r.lookahead
  silent : r.lookahead ≠ 0 → r'.seen = r.seen
  mono : r.hits ≤ r'.hits
  le : leftTotal r'.seen + r.hits ≤ leftTotal r.seen + r'.hits
  looks : lookaheadCount r.seen ≤ lookaheadCount r'.seen
  exact : r.lookahead = 0 →
    (leftTotal r'.seen + r.hits = leftTotal r.seen + r'.hits ↔ lookaheadCount r'.seen = lookaheadCount r.seen)

theorem Accounts.refl (r : Run D (List Event)) : r.Accounts r :=
  ⟨rfl, fun _ => rfl, Nat.le_refl _, Nat.le_refl _, Nat.le_refl _, fun _ => ⟨fun _ => rfl, fun _ => rfl⟩⟩

theorem Accounts.trans (h : r.Accounts r') (h' : r'.Accounts r'') : r.Accounts r'' where
  lookahead := h'.lookahead.trans h.lookahead
  silent hl := (h'.silent (h.lookahead ▸ hl)).trans (h.silent hl)
  mono := Nat.le_trans h.mono h'.mono
  le := by have := h.le; have := h'.le; omega
  looks := Nat.le_trans h.looks h'.looks
  exact hl := by
    have := h.exact hl
    have := h'.exact (h.lookahead ▸ hl)
    have := h.le
    have := h'.le
    have := h.looks
    have := h'.looks
    omega

/-- **A run that went on unseen,** and ran some operator. -/
structure Hidden (r r' : Run D (List Event)) : Prop where
  lookahead : r'.lookahead = r.lookahead
  seen : r'.seen = r.seen
  lt : r.hits < r'.hits

end Run

namespace Engine

/-- What an evaluator makes of an operator, the hits account for, and there is at least that one. -/
def AccountsAt (input : Array Char) (lax : Prop) (eval : Evaluator D (List Event)) (code : Array Opcode) : Prop :=
  ∀ i o r, i < code.size → o ≤ input.size →
    (eval code i o r).Yields lax (fun p r' => p.Fits input.size o ∧ r.Accounts r' ∧ r.hits < r'.hits) fun _ _ => True

/-- The operands that were run in a row account for their hits. -/
def AccountsRow (input : Array Char) (o : Nat) (r : Run D (List Event)) (n : Nat) (r' : Run D (List Event)) : Prop :=
  o + n ≤ input.size ∧ r.Accounts r'

theorem goesOn_accounts (he : AccountsAt input lax eval code) {c : Nat} (hc : c < code.size) :
    GoesOn lax eval code o (AccountsRow input o r) (fun _ _ => True) c := by
  intro n r' h
  refine (he c (o + n) r' hc h.1).mono (fun p r'' hp => ?_) fun _ _ _ => trivial
  obtain ⟨hfits, haccounts, -⟩ := hp
  refine ⟨hfits.1, ?_, h.2.trans haccounts⟩
  rw [← Nat.add_assoc]
  exact hfits.2

theorem fits_of_accountsRow (h : EndsRow (AccountsRow input o r) p r') : p.Fits input.size o ∧ r.Accounts r' := by
  obtain ⟨n, ⟨hn, haccounts⟩, rfl | rfl⟩ := h
  · exact ⟨Phrase.fits_ofLength.2 hn, haccounts⟩
  · exact ⟨Phrase.fits_fail.2 (Nat.le_trans (Nat.le_add_right _ _) hn), haccounts⟩

theorem lookahead_hidden (he : AccountsAt input lax eval code) {c : Nat} (hc : c < code.size) (ho : o ≤ input.size)
    (positive : Bool) (r : Run D (List Event)) :
    (lookahead (eval code c o) positive r).Yields lax (fun p r' => p.Fits input.size o ∧ r.Hidden r')
      fun _ _ => True := by
  refine (he c o { r with lookahead := r.lookahead + 1 } hc ho).andThen fun p r' hp => ?_
  obtain ⟨-, haccounts, hlt⟩ := hp
  refine ⟨?_, ?_, haccounts.silent (Nat.succ_ne_zero _), hlt⟩
  · split
    · exact Phrase.fits_empty.2 ho
    · exact Phrase.fits_fail.2 ho
  · show r'.lookahead - 1 = r.lookahead
    rw [haccounts.lookahead]
    rfl

theorem looksAhead_iff : op.LooksAhead ↔ ∃ c, op = .and c ∨ op = .not c := by
  cases op <;> simp [Opcode.LooksAhead, Opcode.operator]

theorem apply_hidden (hc : m.grammar.Code code) (he : AccountsAt input lax eval code) (hop : code[i]? = some op)
    (ho : o ≤ input.size) (hlooks : op.LooksAhead) (r : Run D (List Event)) :
    (apply ⟨m, .record, input⟩ eval code op o r).Yields lax (fun p r' => p.Fits input.size o ∧ r.Hidden r')
      fun _ _ => True := by
  have hwithin := hc.within i op hop
  obtain ⟨c, rfl | rfl⟩ := looksAhead_iff.1 hlooks <;>
    exact lookahead_hidden he (hwithin.children c (List.mem_singleton_self c)).2 ho _ r

theorem apply_accounts (hg : m.grammar.WellFormed) (hc : m.grammar.Code code)
    (he : ∀ code, m.grammar.Code code → AccountsAt input lax eval code) (hop : code[i]? = some op) (ho : o ≤ input.size)
    (hlooks : ¬ op.LooksAhead) (r : Run D (List Event)) :
    (apply ⟨m, .record, input⟩ eval code op o r).Yields lax (fun p r' => p.Fits input.size o ∧ r.Accounts r')
      fun _ _ => True := by
  have hwithin := hc.within i op hop
  have hbody : ∀ code, m.grammar.Code code → ∀ r', r.Accounts r' →
      (eval code 0 o r').Yields lax (fun p r'' => p.Fits input.size o ∧ r.Accounts r'') fun _ _ => True :=
    fun code hc r' hr' => (he code hc 0 o r' hc.root ho).mono (fun _ _ hp => ⟨hp.1, hr'.trans hp.2.1⟩) fun _ _ h => h
  have hdata : ∀ (r' : Run D (List Event)) (d : D), r.Accounts r' → r.Accounts { r' with data := d } :=
    fun _ _ h => ⟨h.lookahead, h.silent, h.mono, h.le, h.looks, h.exact⟩
  refine apply_yields ho (fun c hcm => goesOn_accounts (he code hc) (hwithin.children c hcm).2)
    (fun _ => ⟨ho, .refl r⟩) (fun _ _ _ _ => fits_of_accountsRow) (fun _ p hp => ⟨hp, .refl r⟩)
    (fun c _ hop => absurd (looksAhead_iff.2 ⟨c, hop⟩) hlooks) (fun id hid => ?_) fun id hid => ?_
  · subst hid
    exact callRule_keeps hg (hwithin.rule id rfl) ho hdata hbody (.refl r)
  · subst hid
    exact callUdt_keeps (hwithin.udt id rfl) ho hdata (.refl r)

/-- To enter an operator is a hit that nothing tells to be left. -/
theorem enter_counts (m : Matcher D) (input : Array Char) (op : Opcode) (o : Nat) (r : Run D (List Event)) :
    leftTotal (enter ⟨m, .record, input⟩ op o r).seen = leftTotal r.seen ∧
      lookaheadCount (enter ⟨m, .record, input⟩ op o r).seen = lookaheadCount r.seen := by
  unfold enter
  dsimp only
  split
  · exact ⟨rfl, rfl⟩
  · exact ⟨rfl, rfl⟩

/-- **An operator is a hit of its own,** told to be left unless a lookahead is open. -/
theorem leave_accounts (h : op.LooksAhead ∧ (enter ⟨m, .record, input⟩ op o r).Hidden r' ∨
      ¬ op.LooksAhead ∧ (enter ⟨m, .record, input⟩ op o r).Accounts r') (p : Phrase) :
    r.Accounts (leave ⟨m, .record, input⟩ op o p (decide (r.lookahead = 0)) r') ∧
      r.hits < (leave ⟨m, .record, input⟩ op o p (decide (r.lookahead = 0)) r').hits := by
  obtain ⟨htotal, hlooks⟩ := enter_counts m input op o r
  have hhits : (enter ⟨m, .record, input⟩ op o r).hits = r.hits + 1 := rfl
  have hlt : r.hits < r'.hits := by
    rcases h with ⟨-, hhidden⟩ | ⟨-, haccounts⟩
    · exact Nat.lt_of_succ_lt hhidden.lt
    · exact haccounts.mono
  by_cases hl : r.lookahead = 0
  · simp only [leave, hl, decide_true, if_true, Watcher.record]
    rcases h with ⟨hop, hhidden⟩ | ⟨hop, haccounts⟩
    · -- what the operand ran is hits alone
      have hhidden_lt := hhidden.lt
      rw [← hhidden.seen] at htotal hlooks
      refine ⟨⟨hhidden.lookahead, fun h => absurd hl h, Nat.le_of_lt hlt, ?_, ?_, fun _ => ?_⟩, hlt⟩
      all_goals simp only [leftTotal_up, lookaheadCount_up, if_pos hop]
      all_goals omega
    · have hle := haccounts.le
      have hmono := haccounts.looks
      have hexact := haccounts.exact hl
      refine ⟨⟨haccounts.lookahead, fun h => absurd hl h, Nat.le_of_lt hlt, ?_, ?_, fun _ => ?_⟩, hlt⟩
      all_goals simp only [leftTotal_up, lookaheadCount_up, if_neg hop]
      all_goals omega
  · -- where a lookahead is open nothing is told, and a hit is a hit
    have hentered : (enter ⟨m, .record, input⟩ op o r).seen = r.seen := if_neg hl
    have hsilent : r'.lookahead = r.lookahead ∧ r'.seen = r.seen := by
      rw [← hentered]
      rcases h with ⟨-, hhidden⟩ | ⟨-, haccounts⟩
      · exact ⟨hhidden.lookahead, hhidden.seen⟩
      · exact ⟨haccounts.lookahead, haccounts.silent hl⟩
    obtain ⟨hsame, hseen⟩ := hsilent
    simp only [leave, hl, decide_false, Bool.false_eq_true, if_false]
    exact ⟨⟨hsame, fun _ => hseen, Nat.le_of_lt hlt, hseen ▸ Nat.add_le_add_left (Nat.le_of_lt hlt) _,
      hseen ▸ Nat.le_refl _, fun h => absurd h hl⟩, hlt⟩

theorem step_accounts (hg : m.grammar.WellFormed) (hc : m.grammar.Code code)
    (he : ∀ code, m.grammar.Code code → AccountsAt input lax eval code) :
    AccountsAt input lax (step ⟨m, .record, input⟩ eval) code := by
  intro i o r hi ho
  have hop := Array.getElem?_eq_getElem hi
  unfold step
  simp only [hop]
  by_cases hlooks : code[i].LooksAhead
  · refine (apply_hidden hc (he code hc) hop ho hlooks _).andThen fun p r' hp => ?_
    exact ⟨hp.1, leave_accounts (.inl ⟨hlooks, hp.2⟩) p⟩
  · refine (apply_accounts hg hc he hop ho hlooks _).andThen fun p r' hp => ?_
    exact ⟨hp.1, leave_accounts (.inr ⟨hlooks, hp.2⟩) p⟩

theorem execute_accounts (hg : m.grammar.WellFormed) :
    ∀ (depth : Nat) {code : Array Opcode}, m.grammar.Code code →
      AccountsAt input True (execute ⟨m, .record, input⟩ depth) code
  | 0, _, _ => fun _ _ _ _ _ => trivial
  | depth + 1, _, hc => step_accounts hg hc fun _ => execute_accounts hg depth

end Engine

namespace Matcher

variable {a : Attempt D} {report : MatchReport}

/-- **A match that came to its end** has at least as many hits as operators told to be left; as many exactly, if no
lookahead was. -/
theorem hits_of_attempt (hg : m.grammar.WellFormed) (h : (m.attempt .record a []).result = .ok report) :
    leftTotal (m.events a) ≤ report.hits ∧
      (leftTotal (m.events a) = report.hits ↔ lookaheadCount (m.events a) = 0) := by
  obtain ⟨id, hid, heq⟩ := attempt_eq_ok h
  rw [heq] at h
  obtain ⟨p, r, hp, rfl⟩ := parseFrom_eq_ok h
  have haccounts := ((Engine.execute_accounts hg a.depth (Grammar.code_rnm (Grammar.ruleId?_lt hid)) 0 0
    (firstRun Watcher.record a.input a.data []) Nat.one_pos (Nat.zero_le _)).ended hp).2.1
  have hle : leftTotal r.seen + 0 ≤ 0 + r.hits := haccounts.le
  have hexact : leftTotal r.seen + 0 = 0 + r.hits ↔ lookaheadCount r.seen = 0 := haccounts.exact rfl
  rw [Nat.add_zero, Nat.zero_add] at hle hexact
  have hevents : m.events a = r.seen.reverse := by
    rw [events, heq]
    simp only [parseFrom, hp]
  rw [hevents, lookaheadCount, leftCount, leftCount, leftTotal, List.countP_reverse, List.countP_reverse,
    List.countP_reverse]
  exact ⟨hle, hexact⟩

end Matcher
end SignIn
