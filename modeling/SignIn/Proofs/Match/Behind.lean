import SignIn.Proofs.Match.Termination
/-!
# What lies behind is not read

An operator reads the characters ahead of its offset and asks how many there are; only a callback is handed more.  So
where no rule has a callback and there are no terminals, a rule at the end of some text does with what follows exactly
what it does with that as a text of its own (`rules_look_forward`): it ends in one if it ends in the other, with the same
phrase and after as many operators, and tells of the same events, further on by the length of the text behind.

The two matches are followed side by side as two matches of one input are (`Engine.apply_agree_of_calls`), at offsets
that stay apart by that length.  What they have in common is told from where both began (`Run.InStep`), be it in the
middle of other matches.
-/
namespace SignIn

/-- **An event further on,** by a number of characters. -/
def Event.shift (n : Nat) : Event → Event
  | .start input => .start input
  | .down op o => .down op (n + o)
  | .up op p o => .up op p (n + o)

/-! ## Outcomes that agree in ending -/

namespace Outcome

variable {ρ τ : Type} {good : Phrase → Prop} {R : ρ → τ → Prop} {x : Outcome ρ} {y : Outcome τ}

theorem Agree.starved_iff {B : ρ → τ → Prop} (h : Agree False good R B x y) : x = .starved ↔ y = .starved := by
  cases x <;> cases y <;> simp_all [Agree]

/-- Outcomes that agree in not being broken off have ended, unless they are starved. -/
theorem Agree.both_ended (h : Agree False good R (fun _ _ => False) x y) (hends : y ≠ .starved) :
    ∃ p r t, x = .ended p r ∧ y = .ended p t ∧ R r t := by
  cases x <;> cases y <;> simp_all [Agree]

end Outcome

namespace Run

variable {D : Type} {n : Nat} {r₀ t₀ r t : Run D (List Event)}

/-- **Two runs went on in step,** the first a number of characters further on than the second: as many operators were
entered since they began, and the same was told. -/
structure InStep (n : Nat) (r₀ t₀ r t : Run D (List Event)) : Prop where
  lookahead : r.lookahead = t.lookahead
  entered : ∃ count, r.hits = r₀.hits + count ∧ t.hits = t₀.hits + count
  told : ∃ events, r.seen = events.map (Event.shift n) ++ r₀.seen ∧ t.seen = events ++ t₀.seen

theorem InStep.refl (h : r.lookahead = t.lookahead) : InStep n r t r t := ⟨h, ⟨0, rfl, rfl⟩, ⟨[], rfl, rfl⟩⟩

/-- What is told next, each tells at its own offset. -/
theorem InStep.tell (h : InStep n r₀ t₀ r t) (e : Event) :
    ∃ events, e.shift n :: r.seen = events.map (Event.shift n) ++ r₀.seen ∧ e :: t.seen = events ++ t₀.seen := by
  obtain ⟨events, hr, ht⟩ := h.told
  exact ⟨e :: events, by rw [hr]; rfl, by rw [ht]; rfl⟩

end Run

namespace Engine

open Outcome (Agree)

variable {D σ : Type}

/-! ## What an operator comes to -/

/-- **An operator terminates** if there is a depth at which it is not starved; the bound on the rounds of a repetition cuts
none short (`repetition_uncut`). -/
def Terminates (s : Setting D σ) (code : Array Opcode) (i o : Nat) (r : Run D σ) : Prop :=
  ∃ depth, execute s depth code i o r ≠ .starved

/-- **What an operator comes to,** at whatever depth beyond some bound. -/
def ComesTo (s : Setting D σ) (code : Array Opcode) (i o : Nat) (r : Run D σ) (out : Outcome (Run D σ)) : Prop :=
  ∃ bound, ∀ depth, bound ≤ depth → execute s depth code i o r = out

/-- What has come out at one depth, an operator comes to. -/
theorem comesTo_execute {s : Setting D σ} (hg : s.matcher.grammar.WellFormed) {code : Array Opcode}
    (hc : s.matcher.grammar.Code code) {i o depth : Nat} (hi : i < code.size) (ho : o ≤ s.input.size) {r : Run D σ}
    (h : execute s depth code i o r ≠ .starved) : ComesTo s code i o r (execute s depth code i o r) :=
  ⟨depth, fun _ hle => execute_of_le hg hc hi ho hle h⟩

/-! ## Two matches in step -/

variable {m : Matcher D} {n : Nat} {input input' : Array Char} {r₀ t₀ r t : Run D (List Event)}

theorem lifts_inStep : Lifts (Run.InStep (D := D) n r₀ t₀) where
  raise h := ⟨congrArg (· + 1) h.lookahead, h.entered, h.told⟩
  lower h := ⟨congrArg (· - 1) h.lookahead, h.entered, h.told⟩

theorem enter_inStep (h : Run.InStep n r₀ t₀ r t) (op : Opcode) (o : Nat) :
    Run.InStep n r₀ t₀ (enter ⟨m, .record, input⟩ op (n + o) r) (enter ⟨m, .record, input'⟩ op o t) where
  lookahead := h.lookahead
  entered := by
    obtain ⟨count, hr, ht⟩ := h.entered
    exact ⟨count + 1, congrArg (· + 1) hr, congrArg (· + 1) ht⟩
  told := by
    simp only [enter, h.lookahead]
    split
    · exact h.tell (.down op o)
    · exact h.told

theorem leave_inStep (h : Run.InStep n r₀ t₀ r t) (op : Opcode) (p : Phrase) (o : Nat) (observed : Bool) :
    Run.InStep n r₀ t₀ (leave ⟨m, .record, input⟩ op (n + o) p observed r)
      (leave ⟨m, .record, input'⟩ op o p observed t) where
  lookahead := h.lookahead
  entered := h.entered
  told := by
    simp only [leave]
    split
    · exact h.tell (.up op p o)
    · exact h.told

/-- A rule without a callback is its body. -/
theorem callRule_of_unbound {watch : Watcher σ} {eval : Evaluator D σ} {id : RuleId} {rule : Rule}
    (hrule : m.grammar.rules[id.index]? = some rule) (hunbound : m.ruleCallback? id = none) (o : Nat) (r : Run D σ) :
    callRule ⟨m, watch, input⟩ eval id o r = eval rule.opcodes 0 o r := by
  simp only [callRule, hrule, hunbound]

/-- **Evaluators in step:** whatever operator they run, the first a number of characters further on than the second, it
comes out the same, and is not broken off. -/
def KeepStep (m : Matcher D) (n : Nat) (input : Array Char) (r₀ t₀ : Run D (List Event))
    (eval eval' : Evaluator D (List Event)) : Prop :=
  ∀ code i o r t, m.grammar.Code code → i < code.size → n + o ≤ input.size → Run.InStep n r₀ t₀ r t →
    Agree False (Phrase.Fits input.size (n + o)) (Run.InStep n r₀ t₀) (fun _ _ => False) (eval code i (n + o) r)
      (eval' code i o t)

/-- **A step stays in step** if the operands do: nothing but what is ahead is read, and a rule is its body. -/
theorem step_keepStep (hg : m.grammar.WellFormed) (hudts : m.grammar.udts.size = 0)
    (hunbound : ∀ id, m.ruleCallback? id = none) (hahead : ∀ o, ReadsAlike input (n + o) input' o)
    {eval eval' : Evaluator D (List Event)} (he : KeepStep m n input r₀ t₀ eval eval') :
    KeepStep m n input r₀ t₀ (step ⟨m, .record, input⟩ eval) (step ⟨m, .record, input'⟩ eval') := by
  intro code i o r t hc hi ho h
  have hop := Array.getElem?_eq_getElem hi
  simp only [step, hop, h.lookahead]
  refine (apply_agree_of_calls lifts_inStep (Eq.refl m.counter) (hahead o) (fun code i k r t hc hi ho h => ?_) ho
    (fun id hid r t h => ?_) (fun id hid => ?_) hc (hc.within i _ hop) _ _ (enter_inStep h _ o)).andThen fun p r' t' hp h' => ?_
  · rw [Nat.add_assoc] at ho ⊢
    exact he code i (o + k) r t hc hi ho h
  · have hrule : m.grammar.rules[id.index]? = some m.grammar.rules[id.index] := Array.getElem?_eq_getElem hid
    have hcode := hg _ _ hrule
    rw [callRule_of_unbound hrule (hunbound id), callRule_of_unbound hrule (hunbound id)]
    exact he _ 0 o r t hcode hcode.root ho h
  · -- there are no terminals to call
    exact absurd hid (by rw [hudts]; exact Nat.not_lt_zero _)
  · exact .ended hp (leave_inStep h' _ p o _)

/-- **Execution stays in step,** starved in both matches or in neither. -/
theorem execute_keepStep (hg : m.grammar.WellFormed) (hudts : m.grammar.udts.size = 0)
    (hunbound : ∀ id, m.ruleCallback? id = none) (hahead : ∀ o, ReadsAlike input (n + o) input' o) :
    ∀ depth, KeepStep m n input r₀ t₀ (execute ⟨m, .record, input⟩ depth) (execute ⟨m, .record, input'⟩ depth)
  | 0 => fun _ _ _ _ _ _ _ _ _ => .inr rfl
  | depth + 1 => step_keepStep hg hudts hunbound hahead (execute_keepStep hg hudts hunbound hahead depth)

end Engine

/-- What follows a text is read alike behind it and on its own. -/
theorem readsAlike_append (behind ahead : Array Char) (o : Nat) :
    ReadsAlike (behind ++ ahead) (behind.size + o) ahead o := by
  intro n
  rw [Nat.add_assoc, Array.getElem?_append_right (Nat.le_add_right _ _), Nat.add_sub_cancel_left]

/-- **Matching does not look back.**  Let a grammar have no terminals, and no callback be bound to its rules.  Then a rule
behind some text terminates exactly if it does on what is ahead alone, in the midst of whatever matches the two are begun,
as many lookaheads being open; and they come to the same phrase, have entered as many operators, and have told of the same
events, each offset being greater by the length of the text behind. -/
theorem rules_look_forward {D : Type} {rules : List (Text × List Opcode)} {m : Matcher D}
    (htables : Grammar.ofTables rules [] = .ok m.grammar) (hunbound : ∀ id, m.ruleCallback? id = none) {id : RuleId}
    (hid : id.index < m.grammar.rules.size) (behind ahead : Array Char) {r t : Run D (List Event)}
    (hlookahead : r.lookahead = t.lookahead) :
    let whole : Setting D (List Event) := ⟨m, .record, behind ++ ahead⟩
    let alone : Setting D (List Event) := ⟨m, .record, ahead⟩
    (Engine.Terminates whole #[.rnm id] 0 behind.size r ↔ Engine.Terminates alone #[.rnm id] 0 0 t) ∧
    (Engine.Terminates alone #[.rnm id] 0 0 t → ∃ p r' t' count events,
      Engine.ComesTo whole #[.rnm id] 0 behind.size r (.ended p r') ∧
      Engine.ComesTo alone #[.rnm id] 0 0 t (.ended p t') ∧
      r'.hits = r.hits + count ∧ t'.hits = t.hits + count ∧
      r'.seen = events.map (Event.shift behind.size) ++ r.seen ∧ t'.seen = events ++ t.seen) := by
  intro whole alone
  have hg := Grammar.wellFormed_ofTables htables
  have hudts : m.grammar.udts.size = 0 := by rw [(Grammar.ofTables_eq_ok htables).2.2]; rfl
  have hcode := Grammar.code_rnm hid
  have hwithin : behind.size ≤ (behind ++ ahead).size := by rw [Array.size_append]; exact Nat.le_add_right _ _
  have hagree : ∀ depth, Outcome.Agree False (Phrase.Fits whole.input.size behind.size) (Run.InStep behind.size r t)
      (fun _ _ => False) (Engine.execute whole depth #[.rnm id] 0 behind.size r)
      (Engine.execute alone depth #[.rnm id] 0 0 t) :=
    fun depth => Engine.execute_keepStep hg hudts hunbound (readsAlike_append behind ahead) depth #[.rnm id] 0 0 r t hcode
      Nat.one_pos hwithin (.refl hlookahead)
  refine ⟨exists_congr fun depth => not_congr (hagree depth).starved_iff, ?_⟩
  rintro ⟨depth, hends⟩
  have hends' : Engine.execute whole depth #[.rnm id] 0 behind.size r ≠ .starved :=
    fun h => hends ((hagree depth).starved_iff.1 h)
  obtain ⟨p, r', t', hr, ht, hstep⟩ := (hagree depth).both_ended hends
  obtain ⟨count, hhits⟩ := hstep.entered
  obtain ⟨events, hseen⟩ := hstep.told
  refine ⟨p, r', t', count, events, ?_, ?_, hhits.1, hhits.2, hseen⟩
  · rw [← hr]
    exact Engine.comesTo_execute hg hcode Nat.one_pos hwithin hends'
  · rw [← ht]
    exact Engine.comesTo_execute hg hcode Nat.one_pos (Nat.zero_le _) hends

/-- Tables of a rule of letters until the word `end`, which it only looks at. -/
def untilEndTables : List (Text × List Opcode) :=
  [("until-end", [.rep 1 none 1, .cat [2, 4], .not 3, .tls "end", .rnm ⟨1⟩]), ("letter", [.trg 97 122])]

/-- The matcher of these rules, to which nothing is bound. -/
def untilEndMatcher : Matcher Unit :=
  .bare ⟨#[⟨"until-end", #[.rep 1 none 1, .cat [2, 4], .not 3, .tls "end", .rnm ⟨1⟩]⟩, ⟨"letter", #[.trg 97 122]⟩], #[]⟩

theorem rules_look_forward_untilEnd :
    Grammar.ofTables untilEndTables [] = .ok untilEndMatcher.grammar ∧
    (∀ id, untilEndMatcher.ruleCallback? id = none) ∧
    let whole : Setting Unit (List Event) := ⟨untilEndMatcher, .record, #['e', 'n', 'd'] ++ #['a', 'b', 'E', 'n', 'd']⟩
    let alone : Setting Unit (List Event) := ⟨untilEndMatcher, .record, #['a', 'b', 'E', 'n', 'd']⟩
    let r := Matcher.firstRun .record whole.input () []
    let t := Matcher.firstRun .record alone.input () []
    Engine.Terminates alone #[.rnm ⟨0⟩] 0 0 t ∧ Engine.Terminates whole #[.rnm ⟨0⟩] 0 3 r ∧
    ∃ p r' t' count events, Engine.ComesTo whole #[.rnm ⟨0⟩] 0 3 r (.ended p r') ∧
      Engine.ComesTo alone #[.rnm ⟨0⟩] 0 0 t (.ended p t') ∧ r'.hits = count ∧ t'.hits = count ∧
      r'.seen = events.map (Event.shift 3) ++ [.start whole.input] ∧ t'.seen = events ++ [.start alone.input] := by
  have hg : Grammar.ofTables untilEndTables [] = .ok untilEndMatcher.grammar := rfl
  have hunbound : ∀ id, untilEndMatcher.ruleCallback? id = none := Matcher.ruleCallback?_bare _ _
  refine ⟨hg, hunbound, ?_⟩
  intro whole alone r t
  have hid : (⟨0⟩ : RuleId).index < untilEndMatcher.grammar.rules.size := by decide
  -- the rule refers to another, which refers to none
  have hacyclic : untilEndMatcher.LeftAcyclic := Matcher.leftAcyclic_of_descends (n := 2) (by decide)
  have hends : Engine.Terminates alone #[.rnm ⟨0⟩] 0 0 t := ⟨_, Engine.execute_ne_starved (s := alone)
    (Grammar.wellFormed_ofTables hg) (Grammar.proper_ofTables hg) hacyclic hid (Nat.le_refl _) t⟩
  have h := rules_look_forward hg hunbound hid #['e', 'n', 'd'] #['a', 'b', 'E', 'n', 'd'] (r := r) (t := t) rfl
  obtain ⟨p, r', t', count, events, hwhole, halone, hr, ht, hseen⟩ := h.2 hends
  exact ⟨hends, h.1.2 hends, p, r', t', count, events, hwhole, halone, hr.trans (Nat.zero_add _),
    ht.trans (Nat.zero_add _), hseen⟩

end SignIn
