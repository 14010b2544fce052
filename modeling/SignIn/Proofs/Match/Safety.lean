import SignIn.Match.Parse
import SignIn.Match.Tree
import SignIn.Proofs.Match.Step
/-!
# The engine never leaves its tables or its input

`Engine.checked` puts a check around an evaluator: on the way in, that the offset is within the input, that the
opcode exists and that all it refers to exists; on the way out, that the phrase is settled and within what
remains.  A call that fails the check is stuck.  `Engine.executeChecked` is the engine with that check around
every operator at every depth, in and out of lookahead.  For a grammar that `Grammar.ofTables` accepts, and
callbacks that write what they like, it comes out as the engine does, and not stuck (`parse_safe`).

Those who watch are told of operators and phrases that fit the input only, so what they slice out of it is there:
`Watcher.Keeps` is an invariant of a watcher along the brackets of the events, and every match keeps it.
-/
namespace SignIn

/-- What an opcode at an index refers to, looked up. -/
def Opcode.within (g : Grammar) (length i : Nat) (op : Opcode) : Bool :=
  op.children.all (fun c => decide (i < c) && decide (c < length)) &&
    match op with
    | .rnm id => decide (id.index < g.rules.size)
    | .udt id => decide (id.index < g.udts.size)
    | _ => true

theorem Opcode.within_of_within {g : Grammar} {length i : Nat} {op : Opcode} (h : op.Within g length i) :
    op.within g length i = true := by
  unfold Opcode.within
  rw [Bool.and_eq_true, List.all_eq_true]
  refine ⟨fun c hc => by simpa using h.children c hc, ?_⟩
  split
  · exact decide_eq_true (h.rule _ rfl)
  · exact decide_eq_true (h.udt _ rfl)
  · rfl

instance (size o : Nat) (p : Phrase) : Decidable (p.Fits size o) := by unfold Phrase.Fits; infer_instance

namespace Engine

variable {D σ : Type}

/-- **An evaluator that checks what it is asked and what it answers.** -/
def checked (s : Setting D σ) (eval : Evaluator D σ) : Evaluator D σ := fun ops i o r =>
  if o ≤ s.input.size ∧ (ops[i]?).any (fun op => op.within s.matcher.grammar ops.size i) = true then
    match eval ops i o r with
    | .ended p r => if p.Fits s.input.size o then .ended p r else .stuck
    | outcome => outcome
  else .stuck

/-- **The engine with a check around every operator.** -/
def executeChecked (s : Setting D σ) : Nat → Evaluator D σ
  | 0 => fun _ _ _ _ => .starved
  | depth + 1 => checked s (step s (executeChecked s depth))

end Engine

/-! ## Those who watch -/

/-- **An event fits an input** of a size if what it tells of lies within it. -/
def Event.Fits (size : Nat) : Event → Prop
  | .start input => input.size = size
  | .down _ o => o ≤ size
  | .up _ p o => p.Fits size o

/-- **An invariant of a watcher along brackets:** `push` is what entering an operator makes of the index, leaving it
undoes that, and `J` is what is left when a match is broken off. -/
structure Watcher.Keeps {σ κ : Type} (watch : Watcher σ) (size : Nat) (I : κ → σ → Prop) (J : σ → Prop)
    (push : κ → Opcode → Nat → κ) : Prop where
  down : ∀ {k seen o} (op), I k seen → o ≤ size → I (push k op o) (watch seen (.down op o))
  up : ∀ {k seen o p} (op), I (push k op o) seen → p.Fits size o → I k (watch seen (.up op p o))
  broken : ∀ {k seen}, I k seen → J seen

/-- What a match keeps: the watcher's invariant, and that nothing is reached beyond the input. -/
structure Run.Kept {D σ : Type} (size : Nat) (P : σ → Prop) (r : Run D σ) : Prop where
  seen : P r.seen
  reach : r.reach ≤ size

/-- One run twice, with a property. -/
def Run.Same {D σ : Type} (P : Run D σ → Prop) (r t : Run D σ) : Prop := r = t ∧ P r

namespace Engine

open Outcome (Agree)

variable {D σ κ : Type} {s : Setting D σ} {I : κ → σ → Prop} {J : σ → Prop} {push : κ → Opcode → Nat → κ}

theorem steady_kept (hw : s.watch.Keeps s.input.size I J push) (k : κ) :
    Steady (D := D) (Run.Same (Run.Kept s.input.size (I k))) (Run.Same (Run.Kept s.input.size J)) where
  data h := by rw [h.1]
  lookahead h := by rw [h.1]
  answer h _ := by obtain ⟨rfl, h⟩ := h; exact ⟨rfl, h.seen, h.reach⟩
  raise h := by obtain ⟨rfl, h⟩ := h; exact ⟨rfl, h.seen, h.reach⟩
  lower h := by obtain ⟨rfl, h⟩ := h; exact ⟨rfl, h.seen, h.reach⟩
  broken h := by obtain ⟨rfl, h⟩ := h; exact ⟨rfl, hw.broken h.seen, h.reach⟩

theorem enter_kept (hw : s.watch.Keeps s.input.size I J push) {k : κ} {op : Opcode} {o : Nat}
    (ho : o ≤ s.input.size) {r : Run D σ} (hr : r.Kept s.input.size (I k)) :
    (enter s op o r).Kept s.input.size (I (if r.lookahead = 0 then push k op o else k)) := by
  refine ⟨?_, hr.reach⟩
  by_cases hl : r.lookahead = 0
  · simp only [enter, hl, if_true]
    exact hw.down op hr.seen ho
  · simp only [enter, hl, if_false]
    exact hr.seen

theorem leave_kept (hw : s.watch.Keeps s.input.size I J push) {k : κ} {op : Opcode} {o : Nat} {p : Phrase}
    (hp : p.Fits s.input.size o) {observed : Bool} {r : Run D σ}
    (hr : r.Kept s.input.size (I (if observed = true then push k op o else k))) :
    (leave s op o p observed r).Kept s.input.size (I k) := by
  cases observed with
  | true => exact ⟨hw.up op hr.seen hp, Nat.max_le.2 ⟨hr.reach, hp.2⟩⟩
  | false => exact ⟨hr.seen, hr.reach⟩

/-- **The engine passes every check,** and keeps what its watcher keeps. -/
theorem executeChecked_agree (hg : s.matcher.grammar.WellFormed) (hw : s.watch.Keeps s.input.size I J push) :
    ∀ (depth : Nat) (k : κ) (ops : Array Opcode) (i o : Nat) (r : Run D σ), s.matcher.grammar.Code ops →
      i < ops.size → o ≤ s.input.size → r.Kept s.input.size (I k) →
      Agree False (Phrase.Fits s.input.size o) (Run.Same (Run.Kept s.input.size (I k)))
        (Run.Same (Run.Kept s.input.size J)) (executeChecked s depth ops i o r) (execute s depth ops i o r)
  | 0, _, _, _, _, _, _, _, _, _ => .inr rfl
  | depth + 1, k, ops, i, o, r, hc, hi, ho, hr => by
    have hop := Array.getElem?_eq_getElem hi
    have hstep : Agree False (Phrase.Fits s.input.size o) (Run.Same (Run.Kept s.input.size (I k)))
        (Run.Same (Run.Kept s.input.size J)) (step s (executeChecked s depth) ops i o r)
        (step s (execute s depth) ops i o r) := by
      refine step_agree (steady_kept hw (if r.lookahead = 0 then push k ops[i] o else k)) rfl rfl hg ?_ hc hop ho
        ⟨rfl, enter_kept hw ho hr⟩ ?_
      · rintro ops i o r _ hc hi ho ⟨rfl, hr⟩
        exact executeChecked_agree hg hw depth _ ops i o r hc hi ho hr
      · rintro p r' _ hp ⟨rfl, hr'⟩
        exact ⟨rfl, leave_kept hw hp (by simpa only [decide_eq_true_eq] using hr')⟩
    have hwithin := Opcode.within_of_within (hc.within i _ hop)
    simp only [executeChecked, checked, ho, hop, Option.any_some, hwithin, and_self, if_true]
    show Agree _ _ _ _ _ (step s (execute s depth) ops i o r)
    cases hout : step s (executeChecked s depth) ops i o r with
    | ended p r' =>
      rw [hout] at hstep
      have hp : p.Fits s.input.size o := by
        cases hq : step s (execute s depth) ops i o r <;> rw [hq] at hstep <;> first | exact hstep.2.1 | cases hstep
      simp only [hp, if_true]
      exact hstep
    | broken e r' => rw [hout] at hstep; exact hstep
    | stuck => rw [hout] at hstep; exact hstep
    | starved => rw [hout] at hstep; exact hstep

end Engine

/-- Outcomes that agree on being one run are equal, and not stuck. -/
theorem Outcome.Agree.eq_and_ne_stuck {ρ : Type} {good : Phrase → Prop} {P Q : ρ → Prop} {o o' : Outcome ρ}
    (h : Agree False good (fun r t => r = t ∧ P r) (fun r t => r = t ∧ Q r) o o') : o = o' ∧ o' ≠ .stuck := by
  cases o <;> cases o' <;> simp_all [Agree]

end SignIn
