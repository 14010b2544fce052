import SignIn.Proofs.Match.Step
/-!
# What a run yields

`Outcome.Yields` says of one run what `Outcome.Agree` says of two: what holds of the phrase and the run if the
operator ended, and of the run if a callback broke the match off.  There is one rule for each operator that combines
others, for any invariant of the run; the rule of the sequence knows which operands have been run, and that of the
repetition what the counter shows.  Where only how far the operands came matters, all three keep a row (`GoesOn`), and
one rule tells what any operator yields (`apply_yields`).
-/
namespace SignIn
namespace Outcome

variable {ρ : Type} {lax : Prop} {Q Q' : Phrase → ρ → Prop} {B B' : MatchError → ρ → Prop} {o : Outcome ρ}

/-- **An outcome yields** `Q` of its phrase and its run if it ended, and `B` of its error and its run if it was broken
off.  It is not stuck, and it is starved only where `lax` allows that. -/
def Yields (lax : Prop) (Q : Phrase → ρ → Prop) (B : MatchError → ρ → Prop) : Outcome ρ → Prop
  | .ended p r => Q p r
  | .broken e r => B e r
  | .stuck => False
  | .starved => lax

theorem Yields.mono (h : o.Yields lax Q B) (hQ : ∀ p r, Q p r → Q' p r) (hB : ∀ e r, B e r → B' e r) :
    o.Yields lax Q' B' := by
  cases o with
  | ended p r => exact hQ p r h
  | broken e r => exact hB e r h
  | stuck => exact h
  | starved => exact h

theorem Yields.ended {p : Phrase} {r : ρ} (h : o.Yields lax Q B) (ho : o = .ended p r) : Q p r := by
  rw [ho] at h
  exact h

theorem Yields.andThen {k : Phrase → ρ → Outcome ρ} (h : o.Yields lax Q B)
    (hk : ∀ p r, Q p r → (k p r).Yields lax Q' B) : (o.andThen k).Yields lax Q' B := by
  cases o with
  | ended p r => exact hk p r h
  | broken e r => exact h
  | stuck => exact h
  | starved => exact h

end Outcome

namespace Engine

variable {ι ρ D σ : Type} {lax : Prop} {Q : Phrase → ρ → Prop} {B : MatchError → ρ → Prop}

/-- **A choice** keeps an invariant as long as its operands fail, and yields what the first that does not fail does. -/
theorem choice_yields {eval : ι → ρ → Outcome ρ} {I : ρ → Prop} (hend : ∀ r, I r → Q .fail r) :
    ∀ {cs : List ι}, (∀ c ∈ cs, ∀ r, I r → (eval c r).Yields lax
        (fun p r => (p.state = .noMatch → I r) ∧ (p.state ≠ .noMatch → Q p r)) B) →
      ∀ r, I r → (choice eval cs r).Yields lax Q B
  | [], _, r, hI => hend r hI
  | c :: cs, h, r, hI => by
    rw [List.forall_mem_cons] at h
    refine (h.1 r hI).andThen fun p r hp => ?_
    by_cases hs : p.state = .noMatch
    · rw [if_pos hs]
      exact choice_yields hend h.2 r (hp.1 hs)
    · rw [if_neg hs]
      exact hp.2 hs

/-- **A sequence** keeps an invariant of the operands that have been run and of how much they read. -/
theorem sequence_yields {eval : ι → Nat → ρ → Outcome ρ} {I : List ι → Nat → ρ → Prop} :
    ∀ (pre : List ι) {cs : List ι}, (∀ r n, I (pre ++ cs) n r → Q (.ofLength n) r) →
      (∀ done c rest, pre ++ cs = done ++ c :: rest → ∀ n r, I done n r → (eval c n r).Yields lax
        (fun p r => (p.state = .noMatch → Q .fail r) ∧ (p.state ≠ .noMatch → I (done ++ [c]) (n + p.length) r)) B) →
      ∀ n r, I pre n r → (sequence eval cs n r).Yields lax Q B
  | pre, [], hend, _, n, r, hI => hend r n (by rwa [List.append_nil])
  | pre, c :: cs, hend, h, n, r, hI => by
    have hsplit : pre ++ c :: cs = pre ++ [c] ++ cs := by simp
    refine (h pre c cs rfl n r hI).andThen fun p r hp => ?_
    by_cases hs : p.state = .noMatch
    · rw [if_pos hs]
      exact hp.1 hs
    · rw [if_neg hs]
      rw [hsplit] at hend h
      exact sequence_yields _ hend h _ r (hp.2 hs)

/-- **A repetition** keeps an invariant of what the counter shows and of how much the rounds read.  A round that does not
match is the last one. -/
theorem repetition_yields {counter : Counter} {eval : Nat → ρ → Outcome ρ} {min available : Nat} {max : Option Nat}
    {I : Nat → Nat → ρ → Prop} (hend : ∀ k n r, I k n r → Q (repeated min k n) r)
    (hround : ∀ k n r, n < available → I k n r → (eval n r).Yields lax
      (fun p r => match p.state with
        | .matched => I (counter.next k) (n + p.length) r
        | .emptyMatch => Q (.ofLength n) r
        | .active | .noMatch => Q (repeated min k n) r) B) :
    ∀ budget k n r, I k n r → (repetition counter eval min max available budget k n r).Yields lax Q B
  | 0, k, n, r, hI => hend k n r hI
  | budget + 1, k, n, r, hI => by
    unfold repetition
    by_cases ha : available ≤ n
    · rw [if_pos ha]
      exact hend k n r hI
    rw [if_neg ha]
    refine (hround k n r (Nat.lt_of_not_le ha) hI).andThen fun p r hp => ?_
    cases hs : p.state <;> simp only [hs] at hp
    case active => exact hp
    case noMatch => exact hp
    case emptyMatch => exact hp
    case matched =>
      by_cases hm : max = some (counter.next k)
      · simp only [hm, if_true]
        exact hend _ _ r hp
      · simp only [hm, if_false]
        exact repetition_yields hend hround budget _ _ r hp

/-! ## Operands in a row -/

section Row

variable {eval : Evaluator D σ} {code : Array Opcode} {o : Nat} {Row : Nat → Run D σ → Prop}
  {B : MatchError → Run D σ → Prop}

/-- **An operand goes on with a row** of operands that lie one behind the other from an offset on: it is run where the row
ends, and the row then ends where it does; one that failed has read nothing. -/
def GoesOn (lax : Prop) (eval : Evaluator D σ) (code : Array Opcode) (o : Nat) (Row : Nat → Run D σ → Prop)
    (B : MatchError → Run D σ → Prop) (c : Nat) : Prop :=
  ∀ n r, Row n r → (eval code c (o + n) r).Yields lax (fun p r' => p.Settled ∧ Row (n + p.length) r') B

/-- **What a row of operands comes to:** a match of all that they read, or a failure. -/
def EndsRow (Row : Nat → Run D σ → Prop) (p : Phrase) (r : Run D σ) : Prop :=
  ∃ n, Row n r ∧ (p = .ofLength n ∨ p = .fail)

theorem length_of_not_matched {p : Phrase} (h : p.Settled) (hs : p.state ≠ .matched) : p.length = 0 :=
  Nat.eq_zero_of_not_pos fun hpos => hs (h.2.1 hpos)

theorem choice_row {cs : List Nat} (h : ∀ c ∈ cs, GoesOn lax eval code o Row B c) {r : Run D σ} (hr : Row 0 r) :
    (choice (fun c => eval code c o) cs r).Yields lax (EndsRow Row) B := by
  -- what has been tried so far has failed, and read nothing
  refine choice_yields (I := Row 0) (fun r hr => ⟨0, hr, .inr rfl⟩) (fun c hc r hr => ?_) r hr
  refine (h c hc 0 r hr).mono (fun p r' hp => ?_) fun _ _ hb => hb
  obtain ⟨hsettled, hrow⟩ := hp
  rw [Nat.zero_add] at hrow
  refine ⟨fun hs => ?_, fun hs => ⟨p.length, hrow, .inl (Phrase.eq_ofLength_of_settled hsettled hs)⟩⟩
  rwa [length_of_not_matched hsettled (by rw [hs]; decide)] at hrow

theorem sequence_row {cs : List Nat} (h : ∀ c ∈ cs, GoesOn lax eval code o Row B c) {r : Run D σ} (hr : Row 0 r) :
    (sequence (fun c n => eval code c (o + n)) cs 0 r).Yields lax (EndsRow Row) B := by
  refine sequence_yields (I := fun _ => Row) [] (fun r n hr => ⟨n, hr, .inl rfl⟩) ?_ 0 r hr
  intro done c rest hsplit n r hr
  have hc : c ∈ cs := by
    rw [show cs = done ++ c :: rest from hsplit]
    exact List.mem_append_right _ List.mem_cons_self
  exact (h c hc n r hr).mono (fun p r' hp => ⟨fun _ => ⟨_, hp.2, .inr rfl⟩, fun _ => hp.2⟩) fun _ _ hb => hb

theorem repetition_row {counter : Counter} {min child available : Nat} {max : Option Nat}
    (h : GoesOn lax eval code o Row B child) (budget : Nat) {r : Run D σ} (hr : Row 0 r) :
    (repetition counter (fun n => eval code child (o + n)) min max available budget 0 0 r).Yields lax (EndsRow Row) B := by
  have hend : ∀ k n r, Row n r → EndsRow Row (repeated min k n) r := by
    intro k n r hr
    refine ⟨n, hr, ?_⟩
    unfold repeated
    split
    · exact .inl rfl
    · exact .inr rfl
  refine repetition_yields (I := fun _ => Row) hend (fun k n r _ hr => ?_) budget 0 0 r hr
  refine (h n r hr).mono (fun p r' hp => ?_) fun _ _ hb => hb
  obtain ⟨hsettled, hrow⟩ := hp
  have hnone : p.state ≠ .matched → Row n r' := fun hs => by rwa [length_of_not_matched hsettled hs] at hrow
  cases hs : p.state with
  | matched => exact hrow
  | emptyMatch => exact ⟨n, hnone (by rw [hs]; decide), .inl rfl⟩
  | active => exact hend k n r' (hnone (by rw [hs]; decide))
  | noMatch => exact hend k n r' (hnone (by rw [hs]; decide))

/-- **An opcode** yields what its operands in a row, what it reads itself, a lookahead or a call comes to, whichever of
them it is. -/
theorem apply_yields {s : Setting D σ} {op : Opcode} {Q : Phrase → Run D σ → Prop} {r : Run D σ} (ho : o ≤ s.input.size)
    (hrow : ∀ c ∈ op.children, GoesOn lax eval code o Row B c) (hr : op.symbol? = none → Row 0 r)
    (hends : op.symbol? = none → (∀ c, ¬ (op = .and c ∨ op = .not c)) → ∀ p r', EndsRow Row p r' → Q p r')
    (hreads : op.symbol? = none → ∀ p, p.Fits s.input.size o → Q p r)
    (hlook : ∀ c positive, op = .and c ∨ op = .not c → (lookahead (eval code c o) positive r).Yields lax Q B)
    (hrule : ∀ id, op = .rnm id → (callRule s eval id o r).Yields lax Q B)
    (hudt : ∀ id, op = .udt id → (callUdt s id o r).Yields lax Q B) : (apply s eval code op o r).Yields lax Q B := by
  cases op with
  | alt children => exact (choice_row hrow (hr rfl)).mono (hends rfl (by simp)) fun _ _ hb => hb
  | cat children => exact (sequence_row hrow (hr rfl)).mono (hends rfl (by simp)) fun _ _ hb => hb
  | rep min max child =>
    unfold apply
    dsimp only
    split
    · exact hreads rfl _ (Phrase.fits_empty.2 ho)
    · have hchild := hrow child (List.mem_singleton_self child)
      exact (repetition_row hchild _ (hr rfl)).mono (hends rfl (by simp)) fun _ _ hb => hb
  | rnm id => exact hrule id rfl
  | udt id => exact hudt id rfl
  | trg min max => exact hreads rfl _ (range_fits _ _ _ ho)
  | tbs t => exact hreads rfl _ (literal_fits _ _ ho)
  | tls t => exact hreads rfl _ (foldedLiteral_fits _ _ ho)
  | and child => exact hlook child true (.inl rfl)
  | not child => exact hlook child false (.inr rfl)

end Row

/-- **A callback that is asked** yields what its answer is settled to. -/
theorem ask_yields {s : Setting D σ} {Q : Phrase → Run D σ → Prop} {B : MatchError → Run D σ → Prop} {o : Nat}
    (ho : o ≤ s.input.size) {f : Callback D} {name : Text} {descending : Bool} {p : Phrase} {r : Run D σ}
    (hok : ∀ q, settle name (s.input.size - o) descending (f p s.input o r.data).1 = .ok q →
      Q q { r with data := (f p s.input o r.data).2 })
    (herror : ∀ e, settle name (s.input.size - o) descending (f p s.input o r.data).1 = .error e →
      B e { r with data := (f p s.input o r.data).2 }) :
    (ask s f name descending p o r).Yields lax Q B := by
  unfold ask
  rw [if_neg (Nat.not_lt.2 ho)]
  dsimp only
  split
  · rename_i q hq
    exact hok q hq
  · rename_i e he
    exact herror e he

/-! ## Calls -/

section Calls

variable {s : Setting D σ} {eval : Evaluator D σ} {o : Nat} {I : Run D σ → Prop}

/-- **A call of a rule keeps an invariant** that its body keeps and that no answer of a callback touches; and its phrase
fits. -/
theorem callRule_keeps (hg : s.matcher.grammar.WellFormed) {id : RuleId} (hid : id.index < s.matcher.grammar.rules.size)
    (ho : o ≤ s.input.size) (hdata : ∀ r d, I r → I { r with data := d })
    (hbody : ∀ code, s.matcher.grammar.Code code → ∀ r, I r →
      (eval code 0 o r).Yields lax (fun p r' => p.Fits s.input.size o ∧ I r') fun _ _ => True)
    {r : Run D σ} (hr : I r) :
    (callRule s eval id o r).Yields lax (fun p r' => p.Fits s.input.size o ∧ I r') fun _ _ => True := by
  have hrule := Array.getElem?_eq_getElem hid
  have hbody := hbody _ (hg _ _ hrule)
  unfold callRule
  simp only [hrule]
  cases s.matcher.ruleCallback? id with
  | none => exact hbody r hr
  | some f =>
    refine Outcome.Yields.andThen (ask_yields (Q := fun p r' => (p.state = .active ∨ p.Fits s.input.size o) ∧ I r') ho
      (fun q hq => ⟨(settle_eq_ok ho hq).imp_left And.left, hdata _ _ hr⟩) fun _ _ => trivial) fun p r' hp => ?_
    by_cases ha : p.state = .active
    · rw [if_pos ha]
      refine (hbody r' hp.2).andThen fun p r'' hp => ?_
      refine ask_yields ho (fun q hq => ⟨?_, hdata _ _ hp.2⟩) fun _ _ => trivial
      exact (settle_eq_ok ho hq).resolve_left fun h => by cases h.2
    · rw [if_neg ha]
      exact ⟨hp.1.resolve_left ha, hp.2⟩

/-- **A call of a terminal** keeps what no answer of a callback touches. -/
theorem callUdt_keeps {id : UdtId} (hid : id.index < s.matcher.grammar.udts.size) (ho : o ≤ s.input.size)
    (hdata : ∀ r d, I r → I { r with data := d }) {r : Run D σ} (hr : I r) :
    (callUdt s id o r).Yields lax (fun p r' => p.Fits s.input.size o ∧ I r') fun _ _ => True := by
  unfold callUdt
  simp only [Array.getElem?_eq_getElem hid]
  split
  · trivial
  · refine Outcome.Yields.andThen (ask_yields (Q := fun p r' => p.Fits s.input.size o ∧ I r') ho
      (fun q hq => ⟨?_, hdata _ _ hr⟩) fun _ _ => trivial) fun p r' hp => ?_
    · exact (settle_eq_ok ho hq).resolve_left fun h => by cases h.2
    · split
      · trivial
      · exact hp

end Calls

end Engine
end SignIn
