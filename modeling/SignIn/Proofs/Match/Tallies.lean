import SignIn.Match.Tally
import SignIn.Proofs.Match.Attempts
/-!
# What a tally counts

A tally counts the operators that are left, each under its kind and under the outcome, and those that refer to a rule or
a terminal once more under its name.  So the counts of the rules add up to those of the references to rules, and the
counts of the terminals likewise, after whatever attempts (`Tally.balanced_attemptAll`).

To go on with a tally is to add to it what a new one would count (`Tally.foldl_watch_add`).
-/
namespace SignIn

namespace Counts

theorem add_zero (a : Counts) : a.add zero = a := rfl

theorem zero_add (a : Counts) : zero.add a = a := by simp [add, zero]

theorem add_assoc (a b c : Counts) : (a.add b).add c = a.add (b.add c) := by simp [add, Nat.add_assoc]

theorem record_add (s : MatchState) (a b : Counts) : (a.add b).record s = a.add (b.record s) := by cases s <;> rfl

theorem record_add_left (s : MatchState) (a b : Counts) : (a.add b).record s = (a.record s).add b := by
  cases s <;> simp [record, add, Nat.add_right_comm]

/-- **An outcome counts once.** -/
theorem total_record (s : MatchState) (c : Counts) : (c.record s).total = c.total + 1 := by
  cases s <;> simp only [record, total] <;> omega

theorem total_eq_zero {c : Counts} : c.total = 0 ↔ c = zero := by
  obtain ⟨matched, empty, noMatch⟩ := c
  simp [total, zero, and_assoc]

/-- The sum of some counts. -/
def sum (cs : List Counts) : Counts := cs.foldl add zero

theorem foldl_add (a : Counts) : ∀ cs : List Counts, cs.foldl add a = a.add (sum cs)
  | [] => rfl
  | c :: cs => by rw [sum, List.foldl_cons, List.foldl_cons, foldl_add _ cs, foldl_add _ cs, zero_add, add_assoc]

theorem sum_cons (c : Counts) (cs : List Counts) : sum (c :: cs) = c.add (sum cs) := by
  rw [sum, List.foldl_cons, zero_add, foldl_add]

theorem sum_replicate_zero : ∀ n : Nat, sum (List.replicate n zero) = zero
  | 0 => rfl
  | n + 1 => by rw [List.replicate_succ, sum_cons, sum_replicate_zero n, add_zero]

/-- **An outcome that one of the counts gets, the sum gets.** -/
theorem sum_modify (s : MatchState) : ∀ {cs : List Counts} {i : Nat}, i < cs.length →
    sum (cs.modify i (record s)) = (sum cs).record s
  | c :: cs, 0, _ => by rw [List.modify_zero_cons, sum_cons, sum_cons, record_add_left]
  | c :: cs, i + 1, h => by
    rw [List.modify_succ_cons, sum_cons, sum_cons, sum_modify s (Nat.lt_of_succ_lt_succ h), record_add]

theorem sum_modify_toList (s : MatchState) {cs : Array Counts} {i : Nat} (h : i < cs.size) :
    sum (cs.modify i (record s)).toList = (sum cs.toList).record s := by
  rw [Array.toList_modify, sum_modify s (by rwa [Array.length_toList])]

end Counts

/-! ## Events that are counted -/

/-- **The operator that an event tells was left.** -/
def Event.left? : Event → Option Operator
  | .up op _ _ => some op.operator
  | .start _ | .down _ _ => none

/-- **How often an operator was left,** of those that some events tell of. -/
def leftCount (k : Operator) (es : List Event) : Nat := es.countP fun e => e.left? = some k

/-- **How many operators were left.** -/
def leftTotal (es : List Event) : Nat := es.countP fun e => e.left?.isSome

theorem leftCount_up (k : Operator) (op : Opcode) (p : Phrase) (o : Nat) (es : List Event) :
    leftCount k (.up op p o :: es) = leftCount k es + if op.operator = k then 1 else 0 := by
  rw [leftCount, List.countP_cons, ← leftCount]
  simp only [Event.left?, Option.some.injEq, decide_eq_true_eq]

theorem leftTotal_down (op : Opcode) (o : Nat) (es : List Event) : leftTotal (.down op o :: es) = leftTotal es := rfl

theorem leftTotal_append (es fs : List Event) : leftTotal (es ++ fs) = leftTotal es + leftTotal fs := List.countP_append

theorem leftTotal_up (op : Opcode) (p : Phrase) (o : Nat) (es : List Event) :
    leftTotal (.up op p o :: es) = leftTotal es + 1 := List.countP_cons_of_pos rfl

namespace Tally

variable {g : Grammar} {t u : Tally} {op : Opcode} {p : Phrase} {o : Nat}

/-! ## One event -/

theorem operators_watch_up (t : Tally) (op : Opcode) (p : Phrase) (o : Nat) : (watch t (.up op p o)).operators =
    t.operators.set op.operator.slot ((t.operator op.operator).record p.state) op.operator.slot.isLt := by
  cases op <;> rfl

theorem slot_injective {k l : Operator} (h : k.slot = l.slot) : k = l := by
  revert h
  cases k <;> cases l <;> decide

/-- **Leaving an operator counts under its kind.** -/
theorem operator_watch_up (t : Tally) (op : Opcode) (p : Phrase) (o : Nat) (k : Operator) :
    (watch t (.up op p o)).operator k = if op.operator = k then (t.operator k).record p.state else t.operator k := by
  simp only [operator, operators_watch_up]
  by_cases h : op.operator = k
  · subst h
    simp
  · rw [if_neg h]
    have hne : op.operator.slot.val ≠ k.slot.val := fun hs => h (slot_injective (Fin.ext hs))
    exact Vector.getElem_set_ne _ _ hne

theorem total_watch_up (t : Tally) (op : Opcode) (p : Phrase) (o : Nat) :
    (watch t (.up op p o)).total = t.total.record p.state := by
  -- the counts of one operator get the outcome, and with them the sum
  have hslot : op.operator.slot.val < t.operators.toList.length := by simp
  have hget : t.operators.toList[op.operator.slot.val]? = some t.operators[op.operator.slot] := by simp
  rw [total, operators_watch_up, total, ← Counts.sum, ← Counts.sum, ← Counts.sum_modify p.state hslot,
    List.modify_eq_set_getElem?, hget]
  exact congrArg Counts.sum (Vector.toList_set _)

/-- **Leaving a reference to a rule counts once among the rules.** -/
theorem sum_rules_watch_up (t : Tally) {op : Opcode} (h : ∀ id, op = .rnm id → id.index < t.rules.size) (p : Phrase)
    (o : Nat) : Counts.sum (watch t (.up op p o)).rules.toList =
      if op.operator = .rnm then (Counts.sum t.rules.toList).record p.state else Counts.sum t.rules.toList := by
  cases op with
  | rnm id => exact Counts.sum_modify_toList _ (h id rfl)
  | _ => rfl

theorem sum_udts_watch_up (t : Tally) {op : Opcode} (h : ∀ id, op = .udt id → id.index < t.udts.size) (p : Phrase)
    (o : Nat) : Counts.sum (watch t (.up op p o)).udts.toList =
      if op.operator = .udt then (Counts.sum t.udts.toList).record p.state else Counts.sum t.udts.toList := by
  cases op with
  | udt id => exact Counts.sum_modify_toList _ (h id rfl)
  | _ => rfl

theorem size_rules_watch (t : Tally) (e : Event) : (watch t e).rules.size = t.rules.size := by
  cases e with
  | up op p o => cases op <;> first | exact Array.size_modify | rfl
  | _ => rfl

theorem size_udts_watch (t : Tally) (e : Event) : (watch t e).udts.size = t.udts.size := by
  cases e with
  | up op p o => cases op <;> first | exact Array.size_modify | rfl
  | _ => rfl

/-- **A tally counts every operator that was left,** once. -/
theorem total_foldl_watch : ∀ (es : List Event) (t : Tally),
    (es.foldl watch t).total.total = t.total.total + leftTotal es
  | [], _ => rfl
  | .start _ :: es, t => total_foldl_watch es t
  | .down _ _ :: es, t => total_foldl_watch es t
  | .up op p o :: es, t => by
    rw [List.foldl_cons, total_foldl_watch es, total_watch_up, Counts.total_record, leftTotal_up]
    exact Nat.add_right_comm _ _ _

theorem operator_foldl_watch (k : Operator) : ∀ (es : List Event) (t : Tally),
    ((es.foldl watch t).operator k).total = (t.operator k).total + leftCount k es
  | [], _ => rfl
  | .start _ :: es, t => operator_foldl_watch k es t
  | .down _ _ :: es, t => operator_foldl_watch k es t
  | .up op p o :: es, t => by
    rw [List.foldl_cons, operator_foldl_watch k es, operator_watch_up, leftCount_up]
    split
    · rw [Counts.total_record]
      exact Nat.add_right_comm _ _ _
    · rfl

/-- **A new tally** has counted the operators that were left. -/
theorem total_foldl_empty (g : Grammar) (es : List Event) : (es.foldl watch (empty g)).total.total = leftTotal es :=
  (total_foldl_watch es (empty g)).trans (Nat.zero_add _)

theorem operator_foldl_empty (g : Grammar) (k : Operator) (es : List Event) :
    (es.foldl watch (empty g)).operator k = .zero ↔ leftCount k es = 0 := by
  have hempty : (empty g).operator k = .zero := by cases k <;> rfl
  rw [← Counts.total_eq_zero, operator_foldl_watch, hempty]
  exact iff_of_eq (congrArg (· = 0) (Nat.zero_add _))

/-! ## Sums -/

/-- **A tally that adds up:** it counts the rules and terminals of a grammar, the rules as often as references to rules,
and the terminals as often as references to terminals, under each outcome. -/
structure Balanced (g : Grammar) (t : Tally) : Prop where
  ruleCount : t.rules.size = g.rules.size
  udtCount : t.udts.size = g.udts.size
  rules : Counts.sum t.rules.toList = t.operator .rnm
  udts : Counts.sum t.udts.toList = t.operator .udt

theorem balanced_empty (g : Grammar) : Balanced g (empty g) where
  ruleCount := Array.size_replicate
  udtCount := Array.size_replicate
  rules := by rw [empty, Array.toList_replicate, Counts.sum_replicate_zero]; rfl
  udts := by rw [empty, Array.toList_replicate, Counts.sum_replicate_zero]; rfl

/-- **Every event within a match keeps the sums.** -/
theorem Balanced.watch {e : Event} (he : e.Known g) (h : Balanced g t) : Balanced g (watch t e) := by
  refine ⟨(size_rules_watch t e).trans h.ruleCount, (size_udts_watch t e).trans h.udtCount, ?_, ?_⟩
  all_goals cases e with
  | start input => exact he.elim
  | down op o => first | exact h.rules | exact h.udts
  | up op p o => ?_
  · rw [sum_rules_watch_up t (h.ruleCount ▸ he.1), operator_watch_up, h.rules]
  · rw [sum_udts_watch_up t (h.udtCount ▸ he.2), operator_watch_up, h.udts]

/-- **After whatever attempts, a tally adds up.** -/
theorem balanced_attemptAll {D : Type} {m : Matcher D} (hg : m.grammar.WellFormed) (as : List (Attempt D))
    (h : Balanced m.grammar t) : Balanced m.grammar (m.attemptAll Tally.watch as t) :=
  Matcher.attemptAll_keeps hg (fun _ h => h) (fun he h => h.watch he) as h

/-! ## Tallies added up -/

/-- **Two tallies added,** count by count. -/
def add (t u : Tally) : Tally where
  operators := Vector.zipWith Counts.add t.operators u.operators
  rules := Array.zipWith Counts.add t.rules u.rules
  udts := Array.zipWith Counts.add t.udts u.udts

/-- A tally that has counted nothing adds nothing. -/
theorem add_empty (hrules : t.rules.size = g.rules.size) (hudts : t.udts.size = g.udts.size) : t.add (empty g) = t := by
  have hzero : ∀ (cs : Array Counts) (n : Nat), cs.size = n →
      Array.zipWith Counts.add cs (Array.replicate n .zero) = cs := by
    rintro cs _ rfl
    ext1
    · simp
    · simp [Counts.add_zero]
  obtain ⟨operators, rules, udts⟩ := t
  simp only [add, empty, hzero rules _ hrules, hzero udts _ hudts, Tally.mk.injEq, and_true]
  ext1
  simp [Counts.add_zero]

theorem zipWith_modify (s : MatchState) (cs ds : Array Counts) (i : Nat) :
    Array.zipWith Counts.add cs (ds.modify i (Counts.record s)) =
      (Array.zipWith Counts.add cs ds).modify i (Counts.record s) := by
  refine Array.ext (by simp) fun j _ _ => ?_
  simp only [Array.getElem_zipWith, Array.getElem_modify]
  split
  · rw [Counts.record_add]
  · rfl

theorem zipWith_set {n : Nat} (s : MatchState) (cs ds : Vector Counts n) (i : Fin n) :
    Vector.zipWith Counts.add cs (ds.set i (ds[i].record s)) =
      (Vector.zipWith Counts.add cs ds).set i ((Vector.zipWith Counts.add cs ds)[i].record s) := by
  refine Vector.ext fun j hj => ?_
  simp only [Vector.getElem_zipWith, Vector.getElem_set, Fin.getElem_fin]
  split
  · rename_i h
    subst h
    rw [Counts.record_add]
  · rfl

/-- **What is counted in a part is counted in the sum.** -/
theorem watch_add (t u : Tally) (e : Event) : watch (t.add u) e = t.add (watch u e) := by
  cases e with
  | up op p o =>
    cases op <;> simp only [watch, add, zipWith_set, zipWith_modify]
  | _ => rfl

/-- **To go on with a tally** is to add what a new one would count. -/
theorem foldl_watch_add (t : Tally) : ∀ (es : List Event) (u : Tally),
    es.foldl watch (t.add u) = t.add (es.foldl watch u)
  | [], _ => rfl
  | e :: es, u => by rw [List.foldl_cons, List.foldl_cons, watch_add, foldl_watch_add t es]

end Tally
end SignIn
