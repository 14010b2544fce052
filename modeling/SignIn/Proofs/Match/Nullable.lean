import SignIn.Proofs.Match.Yields
/-!
# What may match the empty text

`Matcher.Nullable` is the least set of opcodes that is closed under what an analysis of the grammar can see: an operator
outside it cannot come out as the empty match, whatever the callbacks do (`step_settles`).  A rule with a callback is in
it, since a callback may answer what it likes; a terminal is in it only if it says so, since the engine checks.

`Setting.Calls` says which operators an operator may run where.  An operand of a sequence is run where the sequence
begins only if all the operands in front of it are nullable, and that is all that is needed of nullability.
-/
namespace SignIn

namespace Matcher

variable {D : Type}

/-- **The opcodes that may match the empty text,** by their rule's code and their index. -/
inductive Nullable (m : Matcher D) : Array Opcode → Nat → Prop
  | alt {code i children c} (here : code[i]? = some (.alt children)) (hc : c ∈ children) (below : m.Nullable code c) :
    m.Nullable code i
  | cat {code i children} (here : code[i]? = some (.cat children)) (below : ∀ c ∈ children, m.Nullable code c) :
    m.Nullable code i
  | none {code i max child} (here : code[i]? = some (.rep 0 max child)) : m.Nullable code i
  | rep {code i min max child} (here : code[i]? = some (.rep min max child)) (below : m.Nullable code child) :
    m.Nullable code i
  | bound {code i id f} (here : code[i]? = some (.rnm id)) (asked : m.ruleCallback? id = some f) : m.Nullable code i
  | rule {code i id rule} (here : code[i]? = some (.rnm id)) (found : m.grammar.rules[id.index]? = some rule)
    (below : m.Nullable rule.opcodes 0) : m.Nullable code i
  | literal {code i} (here : code[i]? = some (.tls [])) : m.Nullable code i
  | and {code i child} (here : code[i]? = some (.and child)) : m.Nullable code i
  | not {code i child} (here : code[i]? = some (.not child)) : m.Nullable code i
  | udt {code i id udt} (here : code[i]? = some (.udt id)) (found : m.grammar.udts[id.index]? = some udt)
    (accepts : udt.acceptsEmpty = true) : m.Nullable code i

/-- **The operands that may be run where the operator is:** in a sequence, those behind nullable ones. -/
inductive LeftOperand (m : Matcher D) (code : Array Opcode) : Opcode → Nat → Prop
  | alt {children c} (hc : c ∈ children) : m.LeftOperand code (.alt children) c
  | cat {done c rest} (hdone : ∀ b ∈ done, m.Nullable code b) : m.LeftOperand code (.cat (done ++ c :: rest)) c
  | rep {min max c} : m.LeftOperand code (.rep min max c) c
  | and {c} : m.LeftOperand code (.and c) c
  | not {c} : m.LeftOperand code (.not c) c

end Matcher

/-- **A place where an operator is run:** its rule's code, its index there, and an offset of the input. -/
structure Site where
  code : Array Opcode
  index : Nat
  offset : Nat

namespace Setting

variable {D σ : Type}

/-- **The operators that an operator may run:** its operands, where it is or further on, and the root of its rule. -/
inductive Calls (s : Setting D σ) : Site → Site → Prop
  | operand {code i o op c o'} (here : code[i]? = some op) (hc : c ∈ op.children) (le : o ≤ o') (within : o' ≤ s.input.size)
    (left : o' = o → s.matcher.LeftOperand code op c) : s.Calls ⟨code, i, o⟩ ⟨code, c, o'⟩
  | rule {code i o id rule} (here : code[i]? = some (.rnm id))
    (found : s.matcher.grammar.rules[id.index]? = some rule) : s.Calls ⟨code, i, o⟩ ⟨rule.opcodes, 0, o⟩

/-- **A phrase is settled at a site** if it fits there, and is empty only where the opcode is nullable. -/
def Settled (s : Setting D σ) (x : Site) (p : Phrase) : Prop :=
  p.Fits s.input.size x.offset ∧ (p.state = .emptyMatch → s.matcher.Nullable x.code x.index)

end Setting

/-- **An error that a match may end with:** the grammar does not refer outside its tables, and the match was not given
up for its depth. -/
def MatchError.Proper (e : MatchError) : Prop := e ≠ .outOfTable ∧ e ≠ .tooDeep

namespace Engine

variable {D σ : Type} {s : Setting D σ} {lax : Prop} {eval : Evaluator D σ} {code : Array Opcode} {i o : Nat}

/-- What an evaluator makes of a site is settled there, or broken off by a callback. -/
def SettlesAt (s : Setting D σ) (lax : Prop) (eval : Evaluator D σ) (x : Site) : Prop :=
  ∀ r, (eval x.code x.index x.offset r).Yields lax (fun p _ => s.Settled x p) fun e _ => e.Proper

theorem settle_proper {name : Text} {remaining : Nat} {descending : Bool} {p : Phrase} {e : MatchError}
    (h : settle name remaining descending p = .error e) : e.Proper := by
  unfold settle at h
  split at h
  · cases h
    exact ⟨by simp, by simp⟩
  · split at h
    · split at h
      · cases h
      · cases h
        exact ⟨by simp, by simp⟩
    all_goals cases h

/-- A decided phrase that reads nothing and does not fail is empty. -/
theorem state_eq_emptyMatch {p : Phrase} (h : p.Settled) (hs : p.state ≠ .noMatch) (hlen : p.length = 0) :
    p.state = .emptyMatch := by
  cases hp : p.state with
  | active => exact absurd hp h.1
  | noMatch => exact absurd hp hs
  | emptyMatch => rfl
  | matched =>
    have := h.2.2 hp
    omega

theorem state_ofLength_eq_emptyMatch {n : Nat} : (Phrase.ofLength n).state = .emptyMatch ↔ n = 0 := by
  unfold Phrase.ofLength
  by_cases h : n = 0 <;> simp [h, Phrase.empty]

theorem settled_fail_at (ho : o ≤ s.input.size) : s.Settled ⟨code, i, o⟩ .fail :=
  ⟨Phrase.fits_fail.2 ho, by simp [Phrase.fail]⟩

theorem settled_ofLength_at {n : Nat} (hn : o + n ≤ s.input.size) (h : n = 0 → s.matcher.Nullable code i) :
    s.Settled ⟨code, i, o⟩ (.ofLength n) :=
  ⟨Phrase.fits_ofLength.2 hn, fun he => h (state_ofLength_eq_emptyMatch.1 he)⟩

theorem alt_settles {children : List Nat} (hop : code[i]? = some (.alt children)) (ho : o ≤ s.input.size)
    (he : ∀ y, s.Calls ⟨code, i, o⟩ y → SettlesAt s lax eval y) (r : Run D σ) :
    (choice (fun c => eval code c o) children r).Yields lax (fun p _ => s.Settled ⟨code, i, o⟩ p) fun e _ => e.Proper := by
  refine choice_yields (I := fun _ => True) (fun _ _ => settled_fail_at ho) (fun c hc r _ => ?_) r trivial
  refine (he ⟨code, c, o⟩ (.operand hop hc (Nat.le_refl o) ho fun _ => .alt hc) r).mono ?_ fun _ _ h => h
  rintro p - hp
  exact ⟨fun _ => trivial, fun _ => ⟨hp.1, fun hs => .alt hop hc (hp.2 hs)⟩⟩

theorem cat_settles {children : List Nat} (hop : code[i]? = some (.cat children)) (ho : o ≤ s.input.size)
    (he : ∀ y, s.Calls ⟨code, i, o⟩ y → SettlesAt s lax eval y) (r : Run D σ) :
    (sequence (fun c n => eval code c (o + n)) children 0 r).Yields lax (fun p _ => s.Settled ⟨code, i, o⟩ p)
      fun e _ => e.Proper := by
  -- as long as nothing has been read, all that was run is nullable
  refine sequence_yields (I := fun done n _ => o + n ≤ s.input.size ∧ (n = 0 → ∀ b ∈ done, s.matcher.Nullable code b)) []
    ?_ ?_ 0 r ⟨ho, fun _ b hb => by simp at hb⟩
  · rintro - n ⟨hn, hnull⟩
    exact settled_ofLength_at hn fun h0 => .cat hop (hnull h0)
  · rintro done c rest hsplit n r ⟨hn, hnull⟩
    obtain rfl : children = done ++ c :: rest := hsplit
    have hcall : s.Calls ⟨code, i, o⟩ ⟨code, c, o + n⟩ := by
      refine .operand hop ?_ (Nat.le_add_right o n) hn fun h0 => .cat (hnull (by omega))
      exact List.mem_append_right _ List.mem_cons_self
    refine (he _ hcall r).mono ?_ fun _ _ h => h
    rintro p - ⟨hfits, hempty⟩
    refine ⟨fun _ => settled_fail_at ho, fun hs => ⟨?_, fun h0 b hb => ?_⟩⟩
    · have := hfits.2
      dsimp only at this
      omega
    · rcases List.mem_append.1 hb with hb | hb
      · exact hnull (by omega) b hb
      · obtain rfl := List.mem_singleton.1 hb
        exact hempty (state_eq_emptyMatch hfits.1 hs (by omega))

theorem rep_settles {min child : Nat} {max : Option Nat} (hop : code[i]? = some (.rep min max child))
    (ho : o ≤ s.input.size) (he : ∀ y, s.Calls ⟨code, i, o⟩ y → SettlesAt s lax eval y) (budget : Nat) (r : Run D σ) :
    (repetition s.matcher.counter (fun n => eval code child (o + n)) min max (s.input.size - o) budget 0 0 r).Yields lax
      (fun p _ => s.Settled ⟨code, i, o⟩ p) fun e _ => e.Proper := by
  -- every round that matched has read something
  have hend : ∀ k n, o + n ≤ s.input.size ∧ k ≤ n → s.Settled ⟨code, i, o⟩ (repeated min k n) := by
    rintro k n ⟨hn, hk⟩
    unfold repeated
    split
    · rename_i hmin
      refine settled_ofLength_at hn fun h0 => ?_
      obtain rfl : min = 0 := by omega
      exact .none hop
    · exact settled_fail_at ho
  refine repetition_yields (I := fun k n _ => o + n ≤ s.input.size ∧ k ≤ n) (fun k n _ => hend k n) ?_ budget 0 0 r
    ⟨ho, Nat.le_refl 0⟩
  rintro k n r - ⟨hn, hk⟩
  have hcall : s.Calls ⟨code, i, o⟩ ⟨code, child, o + n⟩ :=
    .operand hop (List.mem_singleton_self child) (Nat.le_add_right o n) hn fun _ => .rep
  refine (he _ hcall r).mono ?_ fun _ _ h => h
  rintro p - ⟨hfits, hempty⟩
  have hlen := hfits.2
  dsimp only at hlen
  cases hs : p.state with
  | active => exact absurd hs hfits.1.1
  | noMatch => exact hend k n ⟨hn, hk⟩
  | emptyMatch => exact settled_ofLength_at hn fun _ => .rep hop (hempty hs)
  | matched =>
    have := hfits.1.2.2 hs
    have := s.matcher.counter.shows_le (k + 1)
    exact ⟨by omega, by dsimp only [Counter.next]; omega⟩

theorem rnm_settles {id : RuleId} (hop : code[i]? = some (.rnm id)) (hid : id.index < s.matcher.grammar.rules.size)
    (ho : o ≤ s.input.size) (he : ∀ y, s.Calls ⟨code, i, o⟩ y → SettlesAt s lax eval y) (r : Run D σ) :
    (callRule s eval id o r).Yields lax (fun p _ => s.Settled ⟨code, i, o⟩ p) fun e _ => e.Proper := by
  unfold callRule
  have hrule := Array.getElem?_eq_getElem hid
  have hbody := he _ (.rule hop hrule)
  simp only [hrule]
  cases hf : s.matcher.ruleCallback? id with
  | none =>
    refine (hbody r).mono ?_ fun _ _ h => h
    rintro p - ⟨hfits, hempty⟩
    exact ⟨hfits, fun hs => .rule hop hrule (hempty hs)⟩
  | some f =>
    have hanswer {q : Phrase} (hq : q.Fits s.input.size o) : s.Settled ⟨code, i, o⟩ q := ⟨hq, fun _ => .bound hop hf⟩
    refine Outcome.Yields.andThen (ask_yields (Q := fun q _ => q.state = .active ∨ s.Settled ⟨code, i, o⟩ q) ho ?_
      fun _ => settle_proper) fun p r hp => ?_
    · intro q hq
      exact (settle_eq_ok ho hq).imp (fun h => h.1) hanswer
    · by_cases ha : p.state = .active
      · rw [if_pos ha]
        refine (hbody r).andThen fun p r _ => ask_yields ho (fun q hq => ?_) fun _ => settle_proper
        exact hanswer ((settle_eq_ok ho hq).resolve_left fun h => by cases h.2)
      · rw [if_neg ha]
        exact hp.resolve_left ha

theorem udt_settles {id : UdtId} (hop : code[i]? = some (.udt id)) (hid : id.index < s.matcher.grammar.udts.size)
    (ho : o ≤ s.input.size) (r : Run D σ) :
    (callUdt s id o r).Yields lax (fun p _ => s.Settled ⟨code, i, o⟩ p) fun e _ => e.Proper := by
  unfold callUdt
  have hudt := Array.getElem?_eq_getElem hid
  simp only [hudt]
  split
  · exact ⟨by simp, by simp⟩
  · refine Outcome.Yields.andThen (ask_yields (Q := fun q _ => q.Fits s.input.size o) ho (fun q hq => ?_)
      fun _ => settle_proper) fun p r hp => ?_
    · exact (settle_eq_ok ho hq).resolve_left fun h => by cases h.2
    · split
      · exact ⟨by simp, by simp⟩
      · rename_i haccepts
        refine ⟨hp, fun hs => .udt hop hudt ?_⟩
        rw [hs] at haccepts
        simpa using haccepts

/-- A character is never empty, and a literal only if it has none. -/
theorem range_ne_emptyMatch (input : Array Char) (min max o : Nat) : (range input min max o).state ≠ .emptyMatch := by
  unfold range
  split
  · split <;> simp [Phrase.ofLength, Phrase.fail]
  · simp [Phrase.fail]

theorem eq_nil_of_standing {fold : Char → Char} {input : Array Char} {t : Text}
    (h : (if standsAt fold input o t then Phrase.ofLength t.length else .fail).state = .emptyMatch) : t = [] := by
  split at h
  · exact List.length_eq_zero_iff.1 (state_ofLength_eq_emptyMatch.1 h)
  · simp [Phrase.fail] at h

theorem lookahead_settles {child : Nat} (hnull : s.matcher.Nullable code i) (ho : o ≤ s.input.size)
    (he : SettlesAt s lax eval ⟨code, child, o⟩) (positive : Bool) (r : Run D σ) :
    (lookahead (eval code child o) positive r).Yields lax (fun p _ => s.Settled ⟨code, i, o⟩ p) fun e _ => e.Proper := by
  refine Outcome.Yields.andThen (he _) fun p _ _ => ⟨?_, fun _ => hnull⟩
  split
  · exact Phrase.fits_empty.2 ho
  · exact Phrase.fits_fail.2 ho

/-- **What an opcode comes to is settled,** if what it calls comes to is. -/
theorem step_settles (hc : s.matcher.grammar.Code code) {op : Opcode}
    (hop : code[i]? = some op) (hproper : op.Proper) (ho : o ≤ s.input.size)
    (he : ∀ y, s.Calls ⟨code, i, o⟩ y → SettlesAt s lax eval y) : SettlesAt s lax (step s eval) ⟨code, i, o⟩ := by
  intro r
  unfold step
  simp only [hop]
  refine Outcome.Yields.andThen (Q := fun p _ => s.Settled ⟨code, i, o⟩ p) ?_ fun _ _ hp => hp
  have hwithin := hc.within i op hop
  generalize enter s op o r = r
  cases op with
  | alt children => exact alt_settles hop ho he r
  | cat children => exact cat_settles hop ho he r
  | rep min max child =>
    unfold apply
    dsimp only
    split
    · rename_i hmax
      subst hmax
      obtain rfl : min = 0 := Nat.le_zero.1 (hproper.bounds min 0 child rfl)
      exact ⟨Phrase.fits_empty.2 ho, fun _ => .none hop⟩
    · exact rep_settles hop ho he _ r
  | rnm id => exact rnm_settles hop (hwithin.rule id rfl) ho he r
  | udt id => exact udt_settles hop (hwithin.udt id rfl) ho r
  | trg min max => exact ⟨range_fits s.input min max ho, fun hs => absurd hs (range_ne_emptyMatch s.input min max o)⟩
  | tbs t => exact ⟨literal_fits s.input t ho, fun hs => absurd (eq_nil_of_standing hs) (hproper.literal t rfl)⟩
  | tls t =>
    refine ⟨foldedLiteral_fits s.input t ho, fun hs => ?_⟩
    obtain rfl := eq_nil_of_standing hs
    exact .literal hop
  | and child =>
    have hcall : s.Calls ⟨code, i, o⟩ ⟨code, child, o⟩ :=
      .operand hop (List.mem_singleton_self child) (Nat.le_refl o) ho fun _ => .and
    exact lookahead_settles (.and hop) ho (he _ hcall) true r
  | not child =>
    have hcall : s.Calls ⟨code, i, o⟩ ⟨code, child, o⟩ :=
      .operand hop (List.mem_singleton_self child) (Nat.le_refl o) ho fun _ => .not
    exact lookahead_settles (.not hop) ho (he _ hcall) false r

end Engine
end SignIn
