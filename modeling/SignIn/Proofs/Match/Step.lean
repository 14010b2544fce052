import SignIn.Proofs.Grammar.WellFormed
import SignIn.Proofs.Match.Agreement
/-!
# One step of two matches

Two matches of one input with one matcher, watched by whom they may be, stay in step: whatever relation of runs
survives an answer of a callback, a lookahead, and the entry and exit of an operator is kept by a whole step, if
the evaluators of the operands keep it.  On the way every phrase is seen to be settled and to stay within the
input, and every operand to be in its table: this is where the engine's safety comes from.

What an opcode does without a callback rests on the characters ahead alone.  So an opcode is followed on two inputs, at
an offset of each from which on they read alike (`ReadsAlike`, `apply_agree_of_calls`); one input is the case of this
that callbacks need.
-/
namespace SignIn

namespace Phrase

/-- **A phrase fits at an offset** if it is settled and reads no further than the input goes. -/
def Fits (size offset : Nat) (p : Phrase) : Prop := p.Settled ∧ offset + p.length ≤ size

theorem fits_ofLength {size o n : Nat} : (ofLength n).Fits size o ↔ o + n ≤ size := by
  rw [Fits, length_ofLength]
  exact ⟨fun h => h.2, fun h => ⟨settled_ofLength n, h⟩⟩

theorem fits_fail {size o : Nat} : fail.Fits size o ↔ o ≤ size :=
  ⟨fun h => h.2, fun h => ⟨settled_fail, h⟩⟩

theorem fits_empty {size o : Nat} : empty.Fits size o ↔ o ≤ size :=
  ⟨fun h => h.2, fun h => ⟨settled_empty, h⟩⟩

theorem eq_fail_of_settled {p : Phrase} (h : p.Settled) (hs : p.state = .noMatch) : p = .fail := by
  obtain ⟨state, n⟩ := p
  obtain ⟨-, hn⟩ := h
  cases hs
  simpa [fail] using hn

theorem eq_ofLength_of_settled {p : Phrase} (h : p.Settled) (hs : p.state ≠ .noMatch) : p = .ofLength p.length := by
  obtain ⟨state, n⟩ := p
  obtain ⟨ha, hn⟩ := h
  cases state <;> simp_all [ofLength, empty]
  omega

theorem tiling_fits (size : Nat) : Tiling (Fits size) where
  fail h := fits_fail.2 (Nat.le_trans (Nat.le_add_right _ _) (fits_ofLength.1 h))
  start h := fits_empty.2 (fits_ofLength.1 h)
  append _ hp := fits_ofLength.2 (by rw [← Nat.add_assoc]; exact hp.2)

end Phrase

/-- **Two inputs read alike** from an offset of each, if the same characters are ahead. -/
def ReadsAlike (input : Array Char) (o : Nat) (input' : Array Char) (o' : Nat) : Prop :=
  ∀ n, input[o + n]? = input'[o' + n]?

namespace ReadsAlike

variable {input input' : Array Char} {o o' : Nat}

theorem of_eq (h : input' = input) : ReadsAlike input o input' o := fun _ => by rw [h]

theorem advance (h : ReadsAlike input o input' o') (n : Nat) : ReadsAlike input (o + n) input' (o' + n) := by
  intro k
  rw [Nat.add_assoc, Nat.add_assoc]
  exact h (n + k)

/-- As many characters are ahead in one as in the other. -/
theorem remaining (h : ReadsAlike input o input' o') : input'.size - o' = input.size - o := by
  have hend : ∀ n, input'.size ≤ o' + n ↔ input.size ≤ o + n := fun n => by
    rw [← Array.getElem?_eq_none_iff, ← Array.getElem?_eq_none_iff, h n]
  have := hend (input.size - o)
  have := hend (input'.size - o')
  omega

end ReadsAlike

namespace Engine

open Outcome (Agree)

/-! ## What reads the input -/

section Reading

variable {input input' : Array Char} {o o' : Nat}

theorem range_alike (h : ReadsAlike input o input' o') (min max : Nat) :
    range input' min max o' = range input min max o := by
  have hhere : input[o]? = input'[o']? := h 0
  rw [range, range, hhere]

theorem standsAt_alike (fold : Char → Char) :
    ∀ (t : Text) {o o' : Nat}, ReadsAlike input o input' o' → standsAt fold input' o' t = standsAt fold input o t
  | [], _, _, _ => rfl
  | c :: t, o, o', h => by
    have hhere : input[o]? = input'[o']? := h 0
    rw [standsAt, standsAt, hhere, standsAt_alike fold t (h.advance 1)]

theorem literal_alike (h : ReadsAlike input o input' o') (t : Text) : literal input' t o' = literal input t o := by
  rw [literal, literal, standsAt_alike id t h]

theorem foldedLiteral_alike (h : ReadsAlike input o input' o') (t : Text) :
    foldedLiteral input' t o' = foldedLiteral input t o := by
  rw [foldedLiteral, foldedLiteral, standsAt_alike Char.toLower t h]

end Reading

theorem range_fits (input : Array Char) (min max : Nat) {o : Nat} (ho : o ≤ input.size) :
    (range input min max o).Fits input.size o := by
  unfold range
  split
  · rename_i c hc
    split
    · exact Phrase.fits_ofLength.2 (Array.getElem?_eq_some_iff.1 hc).1
    · exact Phrase.fits_fail.2 ho
  · exact Phrase.fits_fail.2 ho

theorem standsAt_le (fold : Char → Char) (input : Array Char) :
    ∀ (t : Text) {o : Nat}, o ≤ input.size → standsAt fold input o t = true → o + t.length ≤ input.size
  | [], _, ho, _ => ho
  | c :: t, o, _, h => by
    unfold standsAt at h
    split at h
    · rename_i d hd
      rw [Bool.and_eq_true] at h
      have := standsAt_le fold input t (Array.getElem?_eq_some_iff.1 hd).1 h.2
      rw [List.length_cons]
      omega
    · cases h

theorem standing_fits (fold : Char → Char) (input : Array Char) (t : Text) {o : Nat} (ho : o ≤ input.size) :
    (if standsAt fold input o t then Phrase.ofLength t.length else .fail).Fits input.size o := by
  split
  · rename_i h
    exact Phrase.fits_ofLength.2 (standsAt_le _ _ _ ho h)
  · exact Phrase.fits_fail.2 ho

theorem literal_fits (input : Array Char) (t : Text) {o : Nat} (ho : o ≤ input.size) :
    (literal input t o).Fits input.size o := standing_fits id input t ho

theorem foldedLiteral_fits (input : Array Char) (t : Text) {o : Nat} (ho : o ≤ input.size) :
    (foldedLiteral input t o).Fits input.size o := standing_fits Char.toLower input t ho

/-- **What is settled is in normal form and within what remains,** or left undecided on the way down. -/
theorem settle_eq_ok {name : Text} {size o : Nat} {descending : Bool} {p q : Phrase} (ho : o ≤ size)
    (h : settle name (size - o) descending p = .ok q) :
    (q.state = .active ∧ descending = true) ∨ q.Fits size o := by
  unfold settle at h
  split at h
  · cases h
  rename_i hl
  have hl : o + p.length ≤ size := by omega
  split at h
  · rename_i hs
    split at h
    · rename_i hd
      cases h
      exact .inl ⟨hs, hd⟩
    · cases h
  · cases h
    exact .inr (Phrase.fits_ofLength.2 hl)
  · cases h
    exact .inr (Phrase.fits_empty.2 ho)
  · cases h
    exact .inr (Phrase.fits_fail.2 ho)

/-! ## What runs others -/

variable {D E σ τ : Type} {lax : Prop}

/-- **A relation of runs that survives the opening and closing of a lookahead.** -/
structure Lifts (R : Run D σ → Run E τ → Prop) : Prop where
  raise : ∀ {r t}, R r t → R { r with lookahead := r.lookahead + 1 } { t with lookahead := t.lookahead + 1 }
  lower : ∀ {r t}, R r t → R { r with lookahead := r.lookahead - 1 } { t with lookahead := t.lookahead - 1 }

/-- **A relation of runs that survives what a callback or a lookahead changes,** the data and the open lookaheads
being the same; `B` is what is left of it when the match is broken off. -/
structure Steady (R B : Run D σ → Run D τ → Prop) : Prop extends Lifts R where
  data : ∀ {r t}, R r t → r.data = t.data
  lookahead : ∀ {r t}, R r t → r.lookahead = t.lookahead
  answer : ∀ {r t}, R r t → ∀ d, R { r with data := d } { t with data := d }
  broken : ∀ {r t}, R r t → B r t

theorem lookahead_agree {R B : Run D σ → Run E τ → Prop} (hR : Lifts R) {size o : Nat} (ho : o ≤ size)
    {eval : Run D σ → Outcome (Run D σ)} {eval' : Run E τ → Outcome (Run E τ)}
    (h : ∀ r t, R r t → Agree lax (Phrase.Fits size o) R B (eval r) (eval' t)) (positive : Bool) (r : Run D σ)
    (t : Run E τ) (hr : R r t) :
    Agree lax (Phrase.Fits size o) R B (lookahead eval positive r) (lookahead eval' positive t) := by
  refine (h _ _ (hR.raise hr)).andThen fun p r t _ hr => .ended ?_ (hR.lower hr)
  split
  · exact Phrase.fits_empty.2 ho
  · exact Phrase.fits_fail.2 ho

/-- **An opcode keeps what its operands keep,** where two inputs read alike, if the rules and the terminals that it calls
do. -/
theorem apply_agree_of_calls {s : Setting D σ} {s' : Setting E τ} {R B : Run D σ → Run E τ → Prop} (hR : Lifts R)
    (hcounter : s'.matcher.counter = s.matcher.counter) {o o' : Nat} (hi : ReadsAlike s.input o s'.input o')
    {eval : Evaluator D σ} {eval' : Evaluator E τ}
    (he : ∀ ops i n r t, s.matcher.grammar.Code ops → i < ops.size → o + n ≤ s.input.size → R r t →
      Agree lax (Phrase.Fits s.input.size (o + n)) R B (eval ops i (o + n) r) (eval' ops i (o' + n) t))
    (ho : o ≤ s.input.size)
    (hrule : ∀ id : RuleId, id.index < s.matcher.grammar.rules.size → ∀ r t, R r t →
      Agree lax (Phrase.Fits s.input.size o) R B (callRule s eval id o r) (callRule s' eval' id o' t))
    (hudt : ∀ id : UdtId, id.index < s.matcher.grammar.udts.size → ∀ r t, R r t →
      Agree lax (Phrase.Fits s.input.size o) R B (callUdt s id o r) (callUdt s' id o' t))
    {ops : Array Opcode} (hc : s.matcher.grammar.Code ops) {i : Nat} {op : Opcode}
    (hop : op.Within s.matcher.grammar ops.size i) (r : Run D σ) (t : Run E τ) (hr : R r t) :
    Agree lax (Phrase.Fits s.input.size o) R B (apply s eval ops op o r) (apply s' eval' ops op o' t) := by
  have hT := Phrase.tiling_fits s.input.size
  have h0 := Phrase.fits_ofLength (n := 0).2 ho
  have hsame : ∀ {P : Nat → Nat → Prop} {cs : List Nat}, (∀ c ∈ cs, P c c) → List.Forall₂ P cs cs :=
    fun h => List.forall₂_same.2 h
  cases op with
  | alt children =>
    refine choice_agree (Phrase.fits_fail.2 ho) (hsame fun c hcm r t hr => ?_) r t hr
    exact he ops c 0 r t hc (hop.children c hcm).2 ho hr
  | cat children =>
    refine sequence_agree hT (hsame fun c hcm n r t hn hr => ?_) 0 r t h0 hr
    exact he ops c n r t hc (hop.children c hcm).2 (Phrase.fits_empty.1 hn) hr
  | rep min max child =>
    have hcm := (hop.children child (List.mem_singleton_self child)).2
    by_cases hz : max = some 0
    · simp only [apply, hz, if_true]
      exact .ended (Phrase.fits_empty.2 ho) hr
    · simp only [apply, hz, if_false, hi.remaining, hcounter]
      refine repetition_agree hT (fun n r t hn hr => ?_) _ 0 0 r t h0 hr
      exact he ops child n r t hc hcm (Phrase.fits_empty.1 hn) hr
  | rnm id => exact hrule id (hop.rule id rfl) r t hr
  | udt id => exact hudt id (hop.udt id rfl) r t hr
  | trg min max =>
    simp only [apply, range_alike hi]
    exact .ended (range_fits _ _ _ ho) hr
  | tbs text =>
    simp only [apply, literal_alike hi]
    exact .ended (literal_fits _ _ ho) hr
  | tls text =>
    simp only [apply, foldedLiteral_alike hi]
    exact .ended (foldedLiteral_fits _ _ ho) hr
  | and child =>
    have hcm := (hop.children child (List.mem_singleton_self child)).2
    exact lookahead_agree hR ho (fun r t hr => he ops child 0 r t hc hcm ho hr) true r t hr
  | not child =>
    have hcm := (hop.children child (List.mem_singleton_self child)).2
    exact lookahead_agree hR ho (fun r t hr => he ops child 0 r t hc hcm ho hr) false r t hr

variable {s : Setting D σ} {s' : Setting D τ} {R R' B : Run D σ → Run D τ → Prop}

theorem ask_agree (hR : Steady R B) (hi : s'.input = s.input) {o : Nat} (ho : o ≤ s.input.size) (f : Callback D)
    (name : Text) (descending : Bool) (p : Phrase) (r : Run D σ) (t : Run D τ) (hr : R r t) :
    Agree lax (fun q => (q.state = .active ∧ descending = true) ∨ q.Fits s.input.size o) R B
      (ask s f name descending p o r) (ask s' f name descending p o t) := by
  unfold ask
  simp only [hi, Nat.not_lt.2 ho, if_false, ← hR.data hr]
  split
  · rename_i q hq
    exact .ended (settle_eq_ok ho hq) (hR.answer hr _)
  · exact .broken (hR.broken (hR.answer hr _))

/-- An answer that has to decide, fits. -/
theorem ask_agree_decided (hR : Steady R B) (hi : s'.input = s.input) {o : Nat} (ho : o ≤ s.input.size)
    (f : Callback D) (name : Text) (p : Phrase) (r : Run D σ) (t : Run D τ) (hr : R r t) :
    Agree lax (Phrase.Fits s.input.size o) R B (ask s f name false p o r) (ask s' f name false p o t) :=
  (ask_agree hR hi ho f name false p r t hr).mono fun _ h => h.resolve_left fun h => by cases h.2

theorem callRule_agree (hR : Steady R B) (hm : s'.matcher = s.matcher) (hi : s'.input = s.input)
    (hg : s.matcher.grammar.WellFormed) {eval : Evaluator D σ} {eval' : Evaluator D τ} {o : Nat}
    (ho : o ≤ s.input.size)
    (he : ∀ ops, s.matcher.grammar.Code ops → ∀ r t, R r t →
      Agree lax (Phrase.Fits s.input.size o) R B (eval ops 0 o r) (eval' ops 0 o t))
    {id : RuleId} (hid : id.index < s.matcher.grammar.rules.size) (r : Run D σ) (t : Run D τ) (hr : R r t) :
    Agree lax (Phrase.Fits s.input.size o) R B (callRule s eval id o r) (callRule s' eval' id o t) := by
  unfold callRule
  have hrule := Array.getElem?_eq_getElem hid
  have hcode := hg _ _ hrule
  simp only [hm, hrule]
  cases s.matcher.ruleCallback? id with
  | none => exact he _ hcode r t hr
  | some f =>
    refine (ask_agree hR hi ho f _ true .undecided r t hr).andThen fun p r t hp hr => ?_
    by_cases ha : p.state = .active
    · simp only [ha, if_true]
      exact (he _ hcode r t hr).andThen fun p r t _ hr => ask_agree_decided hR hi ho f _ p r t hr
    · simp only [ha, if_false]
      exact .ended (hp.resolve_left fun h => ha h.1) hr

theorem callUdt_agree (hR : Steady R B) (hm : s'.matcher = s.matcher) (hi : s'.input = s.input) {o : Nat}
    (ho : o ≤ s.input.size) {id : UdtId} (hid : id.index < s.matcher.grammar.udts.size) (r : Run D σ)
    (t : Run D τ) (hr : R r t) :
    Agree lax (Phrase.Fits s.input.size o) R B (callUdt s id o r) (callUdt s' id o t) := by
  unfold callUdt
  simp only [hm, Array.getElem?_eq_getElem hid]
  cases s.matcher.udtCallback? id with
  | none => exact .broken (hR.broken hr)
  | some f =>
    refine (ask_agree_decided hR hi ho f _ .undecided r t hr).andThen fun p r t hp hr => ?_
    split
    · exact .broken (hR.broken hr)
    · exact .ended hp hr

/-- **An opcode keeps what its operands keep.** -/
theorem apply_agree (hR : Steady R B) (hm : s'.matcher = s.matcher) (hi : s'.input = s.input)
    (hg : s.matcher.grammar.WellFormed) {eval : Evaluator D σ} {eval' : Evaluator D τ}
    (he : ∀ ops i o r t, s.matcher.grammar.Code ops → i < ops.size → o ≤ s.input.size → R r t →
      Agree lax (Phrase.Fits s.input.size o) R B (eval ops i o r) (eval' ops i o t))
    {ops : Array Opcode} (hc : s.matcher.grammar.Code ops) {i : Nat} {op : Opcode}
    (hop : op.Within s.matcher.grammar ops.size i) {o : Nat} (ho : o ≤ s.input.size) (r : Run D σ) (t : Run D τ)
    (hr : R r t) :
    Agree lax (Phrase.Fits s.input.size o) R B (apply s eval ops op o r) (apply s' eval' ops op o t) := by
  refine apply_agree_of_calls hR.toLifts (congrArg Matcher.counter hm) (.of_eq hi) (fun ops i n => he ops i (o + n)) ho
    (fun id hid => ?_) (fun id hid => ?_) hc hop r t hr
  · exact callRule_agree hR hm hi hg ho (fun ops hc r t hr => he ops 0 o r t hc hc.root ho hr) hid
  · exact callUdt_agree hR hm hi ho hid

/-- **A step keeps what its operands keep,** between entering the operator and leaving it. -/
theorem step_agree (hR : Steady R' B) (hm : s'.matcher = s.matcher) (hi : s'.input = s.input)
    (hg : s.matcher.grammar.WellFormed) {eval : Evaluator D σ} {eval' : Evaluator D τ}
    (he : ∀ ops i o r t, s.matcher.grammar.Code ops → i < ops.size → o ≤ s.input.size → R' r t →
      Agree lax (Phrase.Fits s.input.size o) R' B (eval ops i o r) (eval' ops i o t))
    {ops : Array Opcode} (hc : s.matcher.grammar.Code ops) {i : Nat} {op : Opcode} (hop : ops[i]? = some op)
    {o : Nat} (ho : o ≤ s.input.size) {r : Run D σ} {t : Run D τ} (hin : R' (enter s op o r) (enter s' op o t))
    (hout : ∀ p r' t', p.Fits s.input.size o → R' r' t' →
      R (leave s op o p (decide (r.lookahead = 0)) r') (leave s' op o p (decide (t.lookahead = 0)) t')) :
    Agree lax (Phrase.Fits s.input.size o) R B (step s eval ops i o r) (step s' eval' ops i o t) := by
  unfold step
  simp only [hop]
  refine (apply_agree hR hm hi hg he hc (hc.within i _ hop) ho _ _ hin).andThen fun p r' t' hp hr' => ?_
  exact .ended hp (hout _ _ _ hp hr')

end Engine
end SignIn
