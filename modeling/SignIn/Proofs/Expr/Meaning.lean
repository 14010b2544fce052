import SignIn.Proofs.Expr.Simulation
import SignIn.Proofs.Match.Binding
import SignIn.Proofs.Match.Counting
import SignIn.Proofs.Match.Slices
import SignIn.Proofs.Match.Windows
/-!
# What an expression means

`Peg.Reads` is the meaning of an expression, as it is told: a relation between an expression, an offset and the phrase
that is read there, with a rule for each way an operator can go.  There are no opcodes in it, no depths, no budgets
and no order in which rules stand; a name is whatever bears it up to ASCII case.

A repetition is the one operator with a history.  `Peg.Rounds` tells it from the round it is in: how many matches
follow, how long they are together, and whether the last round was an empty one.

The two directions are proved apart.  What an expression comes to at some depth, it reads (`reads_of_run`, by induction
on the depth), and what it reads, it comes to (`outcome_of_reads`, along the derivation).  So a match reports what its
start rule reads, and an expression reads at most one phrase (`parse_reads`).
-/
namespace SignIn

/-- **A grammar of expressions whose terminals answer** by the input and the offset alone. -/
structure Peg where
  rules : List (Text × Expr)
  udts : List (Text × Bool)
  answer : UdtId → Array Char → Nat → Phrase

namespace Peg

/-- **What the answer of a terminal counts as:** it lies within what remains of the input, and is empty only where the
terminal allows it. -/
inductive CountsAs (remaining : Nat) (acceptsEmpty : Bool) : Phrase → Phrase → Prop where
  | matched {n} (fits : n < remaining) : CountsAs remaining acceptsEmpty ⟨.matched, n + 1⟩ ⟨.matched, n + 1⟩
  | nothing (allowed : acceptsEmpty = true) : CountsAs remaining acceptsEmpty ⟨.matched, 0⟩ .empty
  | empty {n} (fits : n ≤ remaining) (allowed : acceptsEmpty = true) : CountsAs remaining acceptsEmpty ⟨.emptyMatch, n⟩ .empty
  | fail {n} (fits : n ≤ remaining) : CountsAs remaining acceptsEmpty ⟨.noMatch, n⟩ .fail

mutual

/-- **An expression reads a phrase at an offset.** -/
inductive Reads (g : Peg) (input : Array Char) : Expr → Nat → Phrase → Prop where
  | altNone {o} : Reads g input (.alt []) o .fail
  | altHere {e es o p} (here : Reads g input e o p) (hit : p.state ≠ .noMatch) : Reads g input (.alt (e :: es)) o p
  | altNext {e es o p q} (here : Reads g input e o p) (miss : p.state = .noMatch) (rest : Reads g input (.alt es) o q) :
    Reads g input (.alt (e :: es)) o q
  | catNone {o} : Reads g input (.cat []) o .empty
  | catFail {e es o p} (here : Reads g input e o p) (miss : p.state = .noMatch) : Reads g input (.cat (e :: es)) o .fail
  | catMore {e es o p q} (here : Reads g input e o p) (hit : p.state ≠ .noMatch)
      (rest : Reads g input (.cat es) (o + p.length) q) :
    Reads g input (.cat (e :: es)) o (q.after p.length)
  | repZero {min e o} : Reads g input (.rep min (some 0) e) o .empty
  | rep {min max e o count n emptied} (positive : max ≠ some 0) (rounds : Rounds g input e max 0 o count n emptied) :
    Reads g input (.rep min max e) o (if emptied = true ∨ min ≤ count then .ofLength n else .fail)
  | rule {name n body o p} (bears : (n, body) ∈ g.rules) (same : sameName name n = true) (here : Reads g input body o p) :
    Reads g input (.rnm name) o p
  | ruleUdt {name n acceptsEmpty id o p} (bears : g.udts[id]? = some (n, acceptsEmpty)) (same : sameName name n = true)
      (counts : CountsAs (input.size - o) acceptsEmpty (g.answer ⟨id⟩ input o) p) : Reads g input (.rnm name) o p
  | udt {name n acceptsEmpty id o p} (bears : g.udts[id]? = some (n, acceptsEmpty)) (same : sameName name n = true)
      (counts : CountsAs (input.size - o) acceptsEmpty (g.answer ⟨id⟩ input o) p) : Reads g input (.udt name) o p
  | range {min max o c} (at_ : input[o]? = some c) (within : min ≤ c.toNat ∧ c.toNat ≤ max) :
    Reads g input (.trg min max) o (.ofLength 1)
  | rangeFail {min max o} (outside : ∀ c, input[o]? = some c → ¬ (min ≤ c.toNat ∧ c.toNat ≤ max)) :
    Reads g input (.trg min max) o .fail
  | literal {t o} (window : phraseText input o t.length = t) : Reads g input (.tbs t) o (.ofLength t.length)
  | literalFail {t o} (window : phraseText input o t.length ≠ t) : Reads g input (.tbs t) o .fail
  | folded {t o} (window : foldCase (phraseText input o t.length) = foldCase t) :
    Reads g input (.tls t) o (.ofLength t.length)
  | foldedFail {t o} (window : foldCase (phraseText input o t.length) ≠ foldCase t) : Reads g input (.tls t) o .fail
  | and {e o p} (here : Reads g input e o p) : Reads g input (.and e) o (if p.isSuccess = true then .empty else .fail)
  | not {e o p} (here : Reads g input e o p) : Reads g input (.not e) o (if p.isSuccess = true then .fail else .empty)

/-- **A repetition after `done` matches,** at the offset where the next one would begin: it goes on to `count` matches
in all, which read `n` characters more, and its last round was `emptied` or not. -/
inductive Rounds (g : Peg) (input : Array Char) : Expr → Option Nat → Nat → Nat → Nat → Nat → Bool → Prop where
  | atEnd {e max done o} (atEnd : input.size ≤ o) : Rounds g input e max done o done 0 false
  | atMax {e done o} : Rounds g input e (some done) done o done 0 false
  | stop {e max done o p} (before : o < input.size) (below : max ≠ some done) (here : Reads g input e o p)
      (miss : p.state ≠ .matched) : Rounds g input e max done o done 0 (decide (p.state = .emptyMatch))
  | round {e max done o p count n emptied} (before : o < input.size) (below : max ≠ some done)
      (here : Reads g input e o p) (hit : p.state = .matched)
      (more : Rounds g input e max (done + 1) (o + p.length) count n emptied) :
    Rounds g input e max done o count (p.length + n) emptied

end

end Peg

/-- **A lexicon asks a grammar:** the same expressions, with distinct names, no callback at a rule, and terminals that
answer as the grammar's do; and it counts exactly. -/
structure Lexicon.Asks {D : Type} (l : Lexicon D) (g : Peg) : Prop where
  rules : l.rules = g.rules
  udts : l.udts = g.udts
  distinct : ((l.names.rules ++ l.names.udts).map foldCase).Nodup
  silent : ∀ id, l.onRule id = none
  answer : ∀ id f, l.onUdt id = some f → ∀ input o d, (f .undecided input o d).1 = g.answer id input o
  exactly : l.counter = .exact

namespace Lexicon.Asks

open Peg (Reads Rounds CountsAs)

variable {D : Type} {l : Lexicon D} {g : Peg} {input : Array Char} (hl : l.Asks g)
include hl

theorem resolve_rule {i : Nat} {name n : Text} {body : Expr} (hi : g.rules[i]? = some (n, body))
    (hn : sameName name n = true) : l.resolve name = some (.rule ⟨i⟩) :=
  resolveName_rule hl.distinct (by simp [names, hl.rules, hi]) hn

theorem resolve_udt {i : Nat} {name n : Text} {a : Bool} (hi : g.udts[i]? = some (n, a)) (hn : sameName name n = true) :
    l.resolve name = some (.udt ⟨i⟩) :=
  resolveName_udt hl.distinct (by simp [names, hl.udts, hi]) hn

theorem bears_rule {name : Text} {id : RuleId} (h : l.resolve name = some (.rule id)) :
    ∃ n body, g.rules[id.index]? = some (n, body) ∧ sameName name n = true := by
  obtain ⟨n, hn, hs⟩ := resolveName_eq_rule h
  rw [names, List.getElem?_map, hl.rules, Option.map_eq_some_iff] at hn
  obtain ⟨r, hr, rfl⟩ := hn
  exact ⟨r.1, r.2, hr, hs⟩

theorem bears_udt {name : Text} {id : UdtId} (h : l.resolve name = some (.udt id)) :
    ∃ n a, g.udts[id.index]? = some (n, a) ∧ sameName name n = true := by
  obtain ⟨n, hn, hs⟩ := resolveName_eq_udt h
  rw [names, List.getElem?_map, hl.udts, Option.map_eq_some_iff] at hn
  obtain ⟨u, hu, rfl⟩ := hn
  exact ⟨u.1, u.2, hu, hs⟩

end Lexicon.Asks

namespace Peg

/-- **What a settled answer counts as.** -/
theorem counts_iff (name : Text) {remaining : Nat} {acceptsEmpty : Bool} {raw p : Phrase} :
    CountsAs remaining acceptsEmpty raw p ↔ Engine.settle name remaining false raw = .ok p ∧
      (p.state = .emptyMatch && !acceptsEmpty) = false := by
  obtain ⟨state, n⟩ := raw
  unfold Engine.settle
  constructor
  · rintro (_ | _ | _ | _)
    all_goals
      simp_all [Phrase.ofLength, Phrase.empty, Phrase.fail]
      try omega
  · rintro ⟨h, he⟩
    dsimp only at h
    split at h
    · cases h
    rename_i hn
    cases state with
    | active => cases h
    | matched =>
      cases h
      cases n with
      | zero => exact .nothing (by simpa [Phrase.empty] using he)
      | succ n => exact .matched (by omega)
    | emptyMatch =>
      cases h
      exact .empty (by omega) (by simpa [Phrase.empty] using he)
    | noMatch =>
      cases h
      exact .fail (by omega)

theorem CountsAs.settled {remaining : Nat} {acceptsEmpty : Bool} {raw p : Phrase}
    (h : CountsAs remaining acceptsEmpty raw p) : p.Settled := by
  cases h with
  | matched => exact Phrase.settled_ofLength (_ + 1)
  | nothing => exact Phrase.settled_empty
  | empty => exact Phrase.settled_empty
  | fail => exact Phrase.settled_fail

/-- Of two settled phrases, whichever it is. -/
theorem settled_ite {c : Prop} [Decidable c] {p q : Phrase} (hp : p.Settled) (hq : q.Settled) :
    (if c then p else q).Settled := by
  split
  · exact hp
  · exact hq

/-- **What is read is settled.** -/
theorem Reads.settled {g : Peg} {input : Array Char} :
    ∀ {e : Expr} {o : Nat} {p : Phrase}, g.Reads input e o p → p.Settled
  | _, _, _, .altNone => Phrase.settled_fail
  | _, _, _, .altHere here _ => here.settled
  | _, _, _, .altNext _ _ rest => rest.settled
  | _, _, _, .catNone => Phrase.settled_empty
  | _, _, _, .catFail _ _ => Phrase.settled_fail
  | _, _, _, .catMore _ _ _ => Phrase.settled_after _ _
  | _, _, _, .repZero => Phrase.settled_empty
  | _, _, _, .rep _ _ => settled_ite (Phrase.settled_ofLength _) Phrase.settled_fail
  | _, _, _, .rule _ _ here => here.settled
  | _, _, _, .ruleUdt _ _ counts => counts.settled
  | _, _, _, .udt _ _ counts => counts.settled
  | _, _, _, .range _ _ => Phrase.settled_ofLength _
  | _, _, _, .rangeFail _ => Phrase.settled_fail
  | _, _, _, .literal _ => Phrase.settled_ofLength _
  | _, _, _, .literalFail _ => Phrase.settled_fail
  | _, _, _, .folded _ => Phrase.settled_ofLength _
  | _, _, _, .foldedFail _ => Phrase.settled_fail
  | _, _, _, .and _ => settled_ite Phrase.settled_empty Phrase.settled_fail
  | _, _, _, .not _ => settled_ite Phrase.settled_fail Phrase.settled_empty

end Peg

/-! ## What an expression comes to, it reads -/

namespace Lexicon

open Peg (Reads Rounds CountsAs)

variable {D : Type} {l : Lexicon D} {g : Peg} {input : Array Char} {o : Nat} {p : Phrase} {d d' : D}

theorem counts_of_callUdt (hl : l.Asks g) {id : UdtId} (h : l.callUdt input id o d = .ended p d') :
    ∃ n a, g.udts[id.index]? = some (n, a) ∧ CountsAs (input.size - o) a (g.answer id input o) p := by
  unfold callUdt at h
  rw [hl.udts] at h
  split at h
  · cases h
  rename_i n a hn
  split at h
  · cases h
  rename_i f hf
  obtain ⟨q, t, hask, h⟩ := Outcome.andThen_eq_ended.1 h
  refine ⟨n, a, hn, (Peg.counts_iff n).2 ?_⟩
  unfold ask at hask
  dsimp only at hask
  rw [← hl.answer id f hf input o d]
  split at hask
  · rename_i q' hq
    cases hask
    split at h
    · cases h
    · rename_i he
      cases h
      exact ⟨hq, Bool.eq_false_iff.2 he⟩
  · cases hask

/-- A terminal that is called by name. -/
theorem counts_of_named (hl : l.Asks g) {name : Text} {id : UdtId} (hid : l.resolve name = some (.udt id))
    (h : l.callUdt input id o d = .ended p d') : ∃ n a, g.udts[id.index]? = some (n, a) ∧ sameName name n = true ∧
      CountsAs (input.size - o) a (g.answer id input o) p := by
  obtain ⟨n, a, hu, hn⟩ := hl.bears_udt hid
  obtain ⟨n', a', hu', hc⟩ := counts_of_callUdt hl h
  cases hu.symm.trans hu'
  exact ⟨n, a, hu, hn, hc⟩

theorem reads_range (g : Peg) (input : Array Char) (min max o : Nat) :
    g.Reads input (.trg min max) o (Engine.range input min max o) := by
  unfold Engine.range
  split
  · rename_i c hc
    by_cases hw : min ≤ c.toNat ∧ c.toNat ≤ max
    · rw [if_pos hw]
      exact .range hc hw
    · rw [if_neg hw]
      exact .rangeFail fun c' hc' => by cases hc.symm.trans hc'; exact hw
  · rename_i hc
    exact .rangeFail fun c' hc' => by cases hc.symm.trans hc'

theorem reads_literal (g : Peg) (input : Array Char) (text : Text) (o : Nat) :
    g.Reads input (.tbs text) o (Engine.literal input text o) := by
  by_cases hw : phraseText input o text.length = text
  · rw [Engine.literal_of_window hw]
    exact .literal hw
  · rw [Engine.literal_of_not_window hw]
    exact .literalFail hw

theorem reads_foldedLiteral (g : Peg) (input : Array Char) (text : Text) (o : Nat) :
    g.Reads input (.tls text) o (Engine.foldedLiteral input (foldCase text) o) := by
  by_cases hw : foldCase (phraseText input o text.length) = foldCase text
  · rw [Engine.foldedLiteral_of_window hw]
    exact .folded hw
  · rw [Engine.foldedLiteral_of_not_window hw]
    exact .foldedFail hw

section

variable {eval : Expr → Nat → D → Outcome D} (he : ∀ e o d p d', eval e o d = .ended p d' → g.Reads input e o p)
include he

theorem reads_of_choice : ∀ {es : List Expr} {d : D},
    Engine.choice (fun e => eval e o) es d = .ended p d' → g.Reads input (.alt es) o p
  | [], d, h => by
    cases h
    exact .altNone
  | e :: es, d, h => by
    obtain ⟨q, t, hq, h⟩ := Outcome.andThen_eq_ended.1 h
    by_cases hm : q.state = .noMatch
    · rw [if_pos hm] at h
      exact .altNext (he _ _ _ _ _ hq) hm (reads_of_choice h)
    · rw [if_neg hm] at h
      cases h
      exact .altHere (he _ _ _ _ _ hq) hm

/-- A sequence that has read `n` characters reads the rest of it where they end. -/
theorem reads_of_sequence : ∀ {es : List Expr} {n : Nat} {d : D},
    Engine.sequence (fun e n => eval e (o + n)) es n d = .ended p d' →
      ∃ q, g.Reads input (.cat es) (o + n) q ∧ p = q.after n
  | [], n, d, h => by
    cases h
    exact ⟨.empty, .catNone, rfl⟩
  | e :: es, n, d, h => by
    obtain ⟨q, t, hq, h⟩ := Outcome.andThen_eq_ended.1 h
    by_cases hm : q.state = .noMatch
    · rw [if_pos hm] at h
      cases h
      exact ⟨.fail, .catFail (he _ _ _ _ _ hq) hm, rfl⟩
    · rw [if_neg hm] at h
      obtain ⟨q', hq', rfl⟩ := reads_of_sequence h
      exact ⟨_, .catMore (he _ _ _ _ _ hq) hm (by rw [Nat.add_assoc]; exact hq'), (Phrase.after_after q' n q.length).symm⟩

/-- A repetition that has matched `count` times and read `n` characters goes its rounds from there.  Each round reads
something, so the budget does not end before the input does. -/
theorem rounds_of_repetition {e : Expr} {min : Nat} {max : Option Nat} : ∀ {budget count n : Nat} {d : D},
    input.size - o ≤ budget + n → max ≠ some count →
    Engine.repetition .exact (fun n => eval e (o + n)) min max (input.size - o) budget count n d = .ended p d' →
      ∃ count' n' emptied, g.Rounds input e max count (o + n) count' n' emptied ∧
        p = if emptied = true ∨ min ≤ count' then .ofLength (n + n') else .fail
  | 0, count, n, d, hb, hm, h => by
    cases h
    exact ⟨count, 0, false, .atEnd (by omega), by simp [Engine.repeated]⟩
  | budget + 1, count, n, d, hb, hm, h => by
    unfold Engine.repetition at h
    by_cases ha : input.size - o ≤ n
    · rw [if_pos ha] at h
      cases h
      exact ⟨count, 0, false, .atEnd (by omega), by simp [Engine.repeated]⟩
    rw [if_neg ha] at h
    obtain ⟨q, t, hq, h⟩ := Outcome.andThen_eq_ended.1 h
    have here := he _ _ _ _ _ hq
    have before : o + n < input.size := by omega
    cases hs : q.state with
    | matched =>
      have hpos : 0 < q.length := here.settled.2.2 hs
      simp only [hs, Counter.next_exact] at h
      by_cases hmax : max = some (count + 1)
      · rw [if_pos hmax] at h
        cases h
        refine ⟨count + 1, q.length, false, .round before hm here hs (n := 0) ?_, by simp [Engine.repeated]⟩
        rw [hmax]
        exact .atMax
      · rw [if_neg hmax] at h
        obtain ⟨count', n', emptied, hr, rfl⟩ := rounds_of_repetition (by omega) hmax h
        refine ⟨count', q.length + n', emptied, .round before hm here hs ?_, by rw [Nat.add_assoc]⟩
        rw [Nat.add_assoc]
        exact hr
    | active => exact absurd hs here.settled.1
    | emptyMatch =>
      simp only [hs] at h
      cases h
      have hr := Rounds.stop before hm here (by rw [hs]; decide)
      exact ⟨count, 0, true, by simpa [hs] using hr, by simp⟩
    | noMatch =>
      simp only [hs] at h
      cases h
      have hr := Rounds.stop before hm here (by rw [hs]; decide)
      exact ⟨count, 0, false, by simpa [hs] using hr, by simp [Engine.repeated]⟩

/-- **An operator reads what it comes to,** if its operands do. -/
theorem reads_of_apply (hl : l.Asks g) {e : Expr} (h : l.apply input eval e o d = .ended p d') :
    g.Reads input e o p := by
  cases e with
  | alt items => exact reads_of_choice he h
  | cat items =>
    obtain ⟨q, hq, rfl⟩ := reads_of_sequence he h
    rw [Phrase.after_zero hq.settled]
    exact hq
  | rep min max item =>
    unfold apply at h
    dsimp only at h
    by_cases hm : max = some 0
    · rw [if_pos hm] at h
      cases h
      rw [hm]
      exact .repZero
    · rw [if_neg hm, hl.exactly] at h
      obtain ⟨count, n, emptied, hr, rfl⟩ := rounds_of_repetition he (by omega) hm h
      rw [Nat.zero_add]
      exact .rep hm hr
  | rnm name =>
    unfold apply callName at h
    dsimp only at h
    split at h
    · rename_i id hid
      obtain ⟨n, body, hbody, hn⟩ := hl.bears_rule hid
      unfold callRule at h
      rw [hl.rules, hbody, hl.silent] at h
      exact .rule (List.mem_of_getElem? hbody) hn (he _ _ _ _ _ h)
    · rename_i id hid
      obtain ⟨n, a, hu, hn, hc⟩ := counts_of_named hl hid h
      exact .ruleUdt hu hn hc
    · cases h
  | udt name =>
    unfold apply at h
    dsimp only at h
    split at h
    · rename_i id hid
      obtain ⟨n, a, hu, hn, hc⟩ := counts_of_named hl hid h
      exact .udt hu hn hc
    · cases h
  | trg min max =>
    cases h
    exact reads_range g input min max o
  | tbs text =>
    cases h
    exact reads_literal g input text o
  | tls text =>
    cases h
    exact reads_foldedLiteral g input text o
  | and item =>
    obtain ⟨q, t, hq, h⟩ := Outcome.andThen_eq_ended.1 h
    have here := he _ _ _ _ _ hq
    cases h
    exact .and here
  | not item =>
    obtain ⟨q, t, hq, h⟩ := Outcome.andThen_eq_ended.1 h
    have here := Reads.not (he _ _ _ _ _ hq)
    cases h
    cases hs : q.isSuccess <;> simpa [hs] using here

end

/-- **What an expression comes to at some depth, it reads.** -/
theorem reads_of_run (hl : l.Asks g) : ∀ {depth : Nat} {e : Expr} {o : Nat} {d : D} {p : Phrase} {d' : D},
    l.run input depth e o d = .ended p d' → g.Reads input e o p
  | _ + 1, _, _, _, _, _, h => reads_of_apply (fun _ _ _ _ _ h => reads_of_run hl h) hl h

/-! ## What an expression reads, it comes to -/

theorem callUdt_of_counts (hl : l.Asks g) (hb : ∀ id : UdtId, id.index < g.udts.length → l.onUdt id ≠ none)
    (id : UdtId) {n : Text} {a : Bool} (hn : g.udts[id.index]? = some (n, a))
    (hc : CountsAs (input.size - o) a (g.answer id input o) p) (d : D) :
    ∃ d', l.callUdt input id o d = .ended p d' := by
  obtain ⟨f, hf⟩ := Option.ne_none_iff_exists'.1 (hb id (List.getElem?_eq_some_iff.1 hn).1)
  rw [← hl.answer id f hf input o d] at hc
  obtain ⟨hs, he⟩ := (Peg.counts_iff n).1 hc
  refine ⟨(f .undecided input o d).2, ?_⟩
  unfold callUdt ask
  simp only [hl.udts, hn, hf, hs, Outcome.andThen, he, Bool.false_eq_true, if_false]

mutual

/-- **What an expression reads, it comes to,** whatever the data. -/
theorem outcome_of_reads (hl : l.Asks g)
    (hb : ∀ id : UdtId, id.index < g.udts.length → l.onUdt id ≠ none) :
    ∀ {e : Expr} {o : Nat} {p : Phrase}, g.Reads input e o p → ∀ d, ∃ d', l.outcome input e o d = .ended p d'
  | _, _, _, .altNone, d => ⟨d, by rw [outcome_eq]; rfl⟩
  | _, o, p, @Reads.altHere _ _ e es _ _ here hit, d => by
    obtain ⟨d', h⟩ := outcome_of_reads hl hb here d
    refine ⟨d', ?_⟩
    rw [outcome_alt_cons, h]
    exact if_neg hit
  | _, o, q, @Reads.altNext _ _ e es _ p _ here miss rest, d => by
    obtain ⟨d', h⟩ := outcome_of_reads hl hb here d
    obtain ⟨d'', h'⟩ := outcome_of_reads hl hb rest d'
    refine ⟨d'', ?_⟩
    rw [outcome_alt_cons, h]
    exact (if_pos miss).trans h'
  | _, _, _, .catNone, d => ⟨d, by rw [outcome_eq]; rfl⟩
  | _, o, _, @Reads.catFail _ _ e es _ p here miss, d => by
    obtain ⟨d', h⟩ := outcome_of_reads hl hb here d
    refine ⟨d', ?_⟩
    rw [outcome_cat_cons, h]
    exact if_pos miss
  | _, o, _, @Reads.catMore _ _ e es _ p q here hit rest, d => by
    obtain ⟨d', h⟩ := outcome_of_reads hl hb here d
    obtain ⟨d'', h'⟩ := outcome_of_reads hl hb rest d'
    refine ⟨d'', ?_⟩
    rw [outcome_cat_cons, h]
    exact (if_neg hit).trans (by rw [h']; rfl)
  | _, _, _, .repZero, d => ⟨d, by rw [outcome_eq, apply, if_pos rfl]⟩
  | _, o, _, @Reads.rep _ _ min max e _ count n emptied positive rounds, d => by
    obtain ⟨d', h⟩ := repetition_of_rounds hl hb rounds min (input.size - o) o 0 (by omega) (by omega) positive d
    refine ⟨d', ?_⟩
    rw [outcome_eq, apply, if_neg positive, hl.exactly, h, Nat.zero_add]
  | _, o, p, @Reads.rule _ _ name n body _ _ bears same here, d => by
    obtain ⟨i, hi⟩ := List.getElem?_of_mem bears
    obtain ⟨d', h⟩ := outcome_of_reads hl hb here d
    refine ⟨d', ?_⟩
    rw [outcome_eq, apply, callName, hl.resolve_rule hi same]
    dsimp only
    rw [callRule, hl.rules, hi, hl.silent]
    exact h
  | _, o, p, @Reads.ruleUdt _ _ name n a id _ _ bears same counts, d => by
    obtain ⟨d', h⟩ := callUdt_of_counts hl hb ⟨id⟩ bears counts d
    refine ⟨d', ?_⟩
    rw [outcome_eq, apply, callName, hl.resolve_udt bears same]
    exact h
  | _, o, p, @Reads.udt _ _ name n a id _ _ bears same counts, d => by
    obtain ⟨d', h⟩ := callUdt_of_counts hl hb ⟨id⟩ bears counts d
    refine ⟨d', ?_⟩
    rw [outcome_eq, apply, hl.resolve_udt bears same]
    exact h
  | _, _, _, @Reads.range _ _ min max o c at_ within, d => ⟨d, by rw [outcome_eq, apply, Engine.range, at_]; simp [within]⟩
  | _, _, _, @Reads.rangeFail _ _ min max o outside, d => by
    refine ⟨d, ?_⟩
    rw [outcome_eq, apply, Engine.range]
    cases h : input[o]? with
    | none => rfl
    | some c => simp [outside c h]
  | _, _, _, .literal window, d => ⟨d, by rw [outcome_eq, apply, Engine.literal_of_window window]⟩
  | _, _, _, .literalFail window, d => ⟨d, by rw [outcome_eq, apply, Engine.literal_of_not_window window]⟩
  | _, _, _, .folded window, d => ⟨d, by rw [outcome_eq, apply, Engine.foldedLiteral_of_window window]⟩
  | _, _, _, .foldedFail window, d => ⟨d, by rw [outcome_eq, apply, Engine.foldedLiteral_of_not_window window]⟩
  | _, o, _, @Reads.and _ _ e _ p here, d => by
    obtain ⟨d', h⟩ := outcome_of_reads hl hb here d
    refine ⟨d', ?_⟩
    rw [outcome_eq, apply, peek, h]
    rfl
  | _, o, _, @Reads.not _ _ e _ p here, d => by
    obtain ⟨d', h⟩ := outcome_of_reads hl hb here d
    refine ⟨d', ?_⟩
    rw [outcome_eq, apply, peek, h]
    cases hs : p.isSuccess <;> simp [Outcome.andThen, hs]

/-- A repetition comes to what its rounds come to, from the round it is in. -/
theorem repetition_of_rounds (hl : l.Asks g)
    (hb : ∀ id : UdtId, id.index < g.udts.length → l.onUdt id ≠ none) :
    ∀ {e : Expr} {max : Option Nat} {done at_ count n : Nat} {emptied : Bool},
      g.Rounds input e max done at_ count n emptied → ∀ (min budget o m : Nat), at_ = o + m →
      input.size - o ≤ budget + m → max ≠ some done → ∀ d, ∃ d',
        Engine.repetition .exact (fun n => l.outcome input e (o + n)) min max (input.size - o) budget done m d =
          .ended (if emptied = true ∨ min ≤ count then .ofLength (m + n) else .fail) d'
  | e, max, done, _, _, _, _, .atEnd atEnd, min, budget, o, m, hat, hbudget, below, d => by
    refine ⟨d, ?_⟩
    cases budget with
    | zero => simp [Engine.repetition, Engine.repeated]
    | succ budget =>
      have ha : input.size - o ≤ m := by omega
      simp [Engine.repetition, ha, Engine.repeated]
  | _, _, _, _, _, _, _, .atMax, min, budget, o, m, hat, hbudget, below, d => absurd rfl below
  | e, max, done, _, _, _, _, @Rounds.stop _ _ _ _ _ _ p before _ here miss, min, budget, o, m, hat, hbudget, below, d => by
    obtain ⟨d', h⟩ := outcome_of_reads hl hb here d
    refine ⟨d', ?_⟩
    obtain ⟨budget, rfl⟩ : ∃ k, budget = k + 1 := ⟨budget - 1, by omega⟩
    have ha : ¬ input.size - o ≤ m := by omega
    rw [Engine.repetition, if_neg ha, ← hat, h]
    dsimp only [Outcome.andThen]
    cases hs : p.state with
    | active => exact absurd hs here.settled.1
    | matched => exact absurd hs miss
    | emptyMatch => simp
    | noMatch => simp [Engine.repeated]
  | e, max, done, _, _, _, _, @Rounds.round _ _ _ _ _ _ p count n emptied before _ here hit more, min, budget, o, m,
      hat, hbudget, below, d => by
    obtain ⟨d', h⟩ := outcome_of_reads hl hb here d
    have hpos : 0 < p.length := here.settled.2.2 hit
    obtain ⟨budget, rfl⟩ : ∃ k, budget = k + 1 := ⟨budget - 1, by omega⟩
    have ha : ¬ input.size - o ≤ m := by omega
    rw [Engine.repetition, if_neg ha, ← hat, h]
    simp only [Outcome.andThen, hit, Counter.next_exact]
    by_cases hmax : max = some (done + 1)
    · -- the last round that is allowed: what follows it can only be the end
      subst hmax
      refine ⟨d', ?_⟩
      rw [if_pos rfl]
      cases more with
      | atEnd => simp [Engine.repeated]
      | atMax => simp [Engine.repeated]
      | stop _ below => exact absurd rfl below
      | round _ below => exact absurd rfl below
    · rw [if_neg hmax]
      obtain ⟨d'', h'⟩ := repetition_of_rounds hl hb more min budget o (m + p.length) (by rw [hat, Nat.add_assoc])
        (by omega) hmax d'
      exact ⟨d'', by rw [h', Nat.add_assoc]⟩

end

end Lexicon

/-! ## Matches -/

/-- **A matcher without callbacks at rules asks the grammar of its expressions.** -/
theorem Matcher.lexicon_asks {D : Type} {m : Matcher D} {rules : List (Text × Expr)} {udts : List (Text × Bool)}
    (hg : Grammar.ofExprs rules udts = .ok m.grammar) (hs : ∀ id, m.ruleCallback? id = none)
    {answer : UdtId → Array Char → Nat → Phrase}
    (ha : ∀ id f, m.udtCallback? id = some f → ∀ input o d, (f .undecided input o d).1 = answer id input o)
    (hc : m.counter = .exact) : (m.lexicon rules udts).Asks ⟨rules, udts, answer⟩ :=
  ⟨rfl, rfl, (firstRepeated_eq_none.1 (Grammar.ofExprs_eq_ok hg).1).2, hs, ha, hc⟩

/-- **A match reports what its start rule reads.**  Let expressions make a grammar, let no rule have a callback, let every
terminal answer by the input and the offset, and let the counter hold the length of the input.  Then a match that ends,
at whatever depth, reports the state and the length of the one phrase that the start rule reads at the beginning of the
input; and if there is such a phrase, the match ends at every depth that is great enough. -/
theorem parse_reads {D σ : Type} {rules : List (Text × Expr)} {udts : List (Text × Bool)} {m : Matcher D}
    (hg : Grammar.ofExprs rules udts = .ok m.grammar) (hs : ∀ id, m.ruleCallback? id = none)
    {answer : UdtId → Array Char → Nat → Phrase}
    (ha : ∀ id f, m.udtCallback? id = some f → ∀ input o d, (f .undecided input o d).1 = answer id input o)
    (start : Text) (watch : Watcher σ) (input : Array Char) (data : D) (seen : σ)
    (hcount : m.counter.Holds input.size) :
    (∀ report, (m.parseWith watch start input data seen).result = .ok report →
      ∀ p, Peg.Reads ⟨rules, udts, answer⟩ input (.rnm start) 0 p ↔ p = ⟨report.state, report.matched⟩) ∧
    ∀ id, m.grammar.ruleId? start = some id → m.unboundUdt? = none →
      (∀ depth report, (m.parseFrom watch depth id input data seen).result = .ok report →
        ∀ p, Peg.Reads ⟨rules, udts, answer⟩ input (.rnm start) 0 p ↔ p = ⟨report.state, report.matched⟩) ∧
      ∀ p, Peg.Reads ⟨rules, udts, answer⟩ input (.rnm start) 0 p → ∃ least, ∀ depth, least ≤ depth →
        ∃ report, (m.parseFrom watch depth id input data seen).result = .ok report ∧
          p = ⟨report.state, report.matched⟩ := by
  have hl := Matcher.lexicon_asks (m := m.exactly) hg hs ha rfl
  have hheld := Matcher.holds_lexicon (m := m.exactly) hg
  have hexact := fun depth id => Matcher.parseFrom_exactly hcount watch depth id data seen
  have hbound : m.unboundUdt? = none → ∀ id : UdtId, id.index < udts.length → m.udtCallback? id ≠ none := by
    intro hb id hid
    obtain ⟨-, tables, -, hg⟩ := Grammar.ofExprs_eq_ok hg
    refine Matcher.udtCallback?_ne_none hb ?_
    rw [(Grammar.ofTables_eq_ok hg).2.2]
    simpa using hid
  have hres : ∀ {id}, m.grammar.ruleId? start = some id → (m.exactly.lexicon rules udts).resolve start = some (.rule id) := by
    intro id hid
    rw [Matcher.resolve_lexicon (m := m.exactly) hg]
    exact Grammar.ruleId?_eq_some.1 hid
  have hfrom : ∀ id, m.grammar.ruleId? start = some id → m.unboundUdt? = none → ∀ depth report,
      (m.parseFrom watch depth id input data seen).result = .ok report →
      ∀ p, Peg.Reads ⟨rules, udts, answer⟩ input (.rnm start) 0 p ↔ p = ⟨report.state, report.matched⟩ := by
    intro id hid hb depth report hok p
    rw [hexact] at hok
    obtain ⟨q, hrun, -, -, hstate, hmatched⟩ := Matcher.run_of_parseFrom hheld (hres hid) hok
    have hq : q = ⟨report.state, report.matched⟩ := by rw [hstate, hmatched]
    rw [← hq]
    constructor
    · intro hp
      obtain ⟨d, hout⟩ := Lexicon.outcome_of_reads hl (hbound hb) hp data
      rw [Lexicon.outcome_eq_run (by rw [hrun]; simp), hrun] at hout
      exact (Outcome.ended.inj hout).1.symm
    · rintro rfl
      exact Lexicon.reads_of_run hl hrun
  refine ⟨fun report hok => ?_, fun id hid hb => ⟨hfrom id hid hb, fun p hp => ?_⟩⟩
  · obtain ⟨id, hid, hb, heq⟩ := Matcher.parseWith_eq_ok hok
    rw [heq] at hok
    exact hfrom id hid hb _ report hok
  · obtain ⟨d, hout⟩ := Lexicon.outcome_of_reads hl (hbound hb) hp data
    obtain ⟨least, hleast⟩ := Lexicon.limit_run (.rnm start) 0 data (by rw [hout]; simp)
    refine ⟨least, fun depth hd => ?_⟩
    obtain ⟨report, hok, -, -, hstate, hmatched⟩ :=
      Matcher.parseFrom_of_run watch seen hheld (hres hid) ((hleast depth hd).trans hout)
    exact ⟨report, by rw [hexact]; exact hok, by rw [hstate, hmatched]⟩

/-- Digits with commas between them, the digit being a terminal. -/
def digitList : List (Text × Expr) × List (Text × Bool) :=
  ([("list", .cat [.rnm "Digit", .star (.cat [.tls ",", .udt "digit"])])], [("digit", false)])

/-- A matcher of them, its rounds counted in a word. -/
def digitListMatcher : Matcher Unit where
  grammar := ⟨#[⟨"list", #[.cat [1, 2], .udt ⟨0⟩, .rep 0 none 3, .cat [4, 5], .tls ",", .udt ⟨0⟩]⟩], #[⟨"digit", false⟩]⟩
  onRule := #[none]
  onUdt := #[some fun _ input o d => (Engine.range input 48 57 o, d)]
  counter := .word

theorem parse_reads_digitList :
    Peg.Reads ⟨digitList.1, digitList.2, fun _ input o => Engine.range input 48 57 o⟩ #['1', ',', '2', ','] (.rnm "LIST")
      0 ⟨.matched, 3⟩ := by
  have hg : Grammar.ofExprs digitList.1 digitList.2 = .ok digitListMatcher.grammar := rfl
  have hs : ∀ id, digitListMatcher.ruleCallback? id = none := by
    rintro ⟨_ | _⟩ <;> rfl
  have ha : ∀ id f, digitListMatcher.udtCallback? id = some f →
      ∀ input o d, (f .undecided input o d).1 = Engine.range input 48 57 o := by
    rintro ⟨_ | _⟩ f hf input o d
    · cases hf
      rfl
    · cases hf
  have hok : (digitListMatcher.parse "LIST" #['1', ',', '2', ','] ()).result =
      .ok ⟨false, .matched, 4, 3, 4, 5, 10⟩ := by decide
  exact ((parse_reads hg hs ha "LIST" .silent _ () () (by decide)).1 _ hok _).2 rfl

end SignIn
