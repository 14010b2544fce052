import SignIn.Proofs.Grammar.WellFormed
/-!
# The judgement on raw tables

Raw tables have a row of places where something may be wrong: the names, those of the rules before those of the
terminals; then rule by rule its root, and opcode by opcode its children and its other operands.  `TableFault` tells
what is wrong at a place, whatever is wrong elsewhere.  `Grammar.ofTables` accepts the tables in which nothing is wrong
at any place, and of all others it tells what is wrong at the first (`ofTables_judges`).
-/
namespace SignIn

variable {rules : List (Text × List Opcode)} {udts : List (Text × Bool)}

/-! ## Places, and what is wrong there -/

/-- **A place of raw tables** where something may be wrong. -/
inductive TablePlace where
  /-- a name, counted through those of the rules and then of the terminals -/
  | name (index : Nat)
  /-- where the first opcode of a rule has to be -/
  | root (rule : Nat)
  /-- a child of an opcode, counted among its children -/
  | child (rule opcode index : Nat)
  /-- the operands of an opcode that are not its children -/
  | operand (rule opcode : Nat)

namespace TablePlace

/-- The numbers by which places are ordered, the first that differ deciding. -/
def key : TablePlace → List Nat
  | name i => [0, i]
  | root r => [1, r]
  | child r i k => [1, r, i, 0, k]
  | operand r i => [1, r, i, 1]

/-- **One place comes before another:** names before rules, rules and opcodes in their order, children before the other
operands. -/
def Before (p q : TablePlace) : Prop := p.key < q.key

/-- The rule that a place is in. -/
def rule? : TablePlace → Option Nat
  | name _ => none
  | root r | child r _ _ | operand r _ => some r

theorem key_injective {p q : TablePlace} (h : p.key = q.key) : p = q := by
  cases p <;> cases q <;> simp_all [key]

/-- **Places are in one row:** what does not come before is the same or comes after. -/
theorem eq_or_before {p q : TablePlace} (h : ¬ q.Before p) : p = q ∨ p.Before q := by
  by_cases hpq : p.Before q
  · exact .inr hpq
  · exact .inl (key_injective (List.le_antisymm h hpq))

section Order

variable {r i j k l : Nat} {p q : TablePlace}

theorem before_name : p.Before (name i) ↔ ∃ j < i, p = name j := by
  cases p <;> simp [Before, key, List.cons_lt_cons_iff]

theorem not_before_root (hp : p.rule? = some r) : ¬ p.Before (root r) := by
  cases p <;> simp_all [Before, key, rule?]

theorem before_child_child : (child r j l).Before (child r i k) ↔ j < i ∨ j = i ∧ l < k := by
  simp [Before, key, List.cons_lt_cons_iff]

theorem before_operand_child : (operand r j).Before (child r i k) ↔ j < i := by
  simp [Before, key, List.cons_lt_cons_iff]

theorem before_child_operand : (child r j l).Before (operand r i) ↔ j < i ∨ j = i := by
  simp [Before, key, List.cons_lt_cons_iff]

theorem before_operand_operand : (operand r j).Before (operand r i) ↔ j < i := by
  simp [Before, key, List.cons_lt_cons_iff]

/-- What comes before a place in a rule is a name, or in that rule or one before it. -/
theorem Before.rule? (h : p.Before q) (hq : q.rule? = some r) :
    p.rule? = none ∨ ∃ r' ≤ r, p.rule? = some r' := by
  cases p <;> cases q <;> simp [Before, key, List.cons_lt_cons_iff, TablePlace.rule?] at h hq ⊢ <;> omega

end Order

end TablePlace

/-- **What is wrong with operands that are not children.** -/
inductive OperandFault (rule : Text) (ruleCount udtCount i : Nat) : Opcode → GrammarError → Prop
  | rule {id : RuleId} (out : ruleCount ≤ id.index) :
    OperandFault rule ruleCount udtCount i (.rnm id) (.ruleOutOfRange rule i id.index)
  | udt {id : UdtId} (out : udtCount ≤ id.index) :
    OperandFault rule ruleCount udtCount i (.udt id) (.udtOutOfRange rule i id.index)
  | literal : OperandFault rule ruleCount udtCount i (.tbs []) (.emptyLiteral rule i)
  | range {min max : Nat} (inverted : max < min) :
    OperandFault rule ruleCount udtCount i (.trg min max) (.invertedRange rule i min max)
  | bounds {min max child : Nat} (inverted : max < min) :
    OperandFault rule ruleCount udtCount i (.rep min (some max) child) (.invertedRange rule i min max)

/-- The names of raw tables, those of the rules first. -/
def tableNames (rules : List (Text × List Opcode)) (udts : List (Text × Bool)) : List Text :=
  rules.map (·.1) ++ udts.map (·.1)

/-- **What is wrong at a place of raw tables.** -/
inductive TableFault (rules : List (Text × List Opcode)) (udts : List (Text × Bool)) : TablePlace → GrammarError → Prop
  /-- a name that is another one before it, ASCII case aside -/
  | name {i j : Nat} {n n' : Text} (lt : i < j) (earlier : (tableNames rules udts)[i]? = some n)
    (later : (tableNames rules udts)[j]? = some n') (same : foldCase n = foldCase n') :
    TableFault rules udts (.name j) (.duplicateName n')
  | root {r : Nat} {name : Text} (hrule : rules[r]? = some (name, [])) :
    TableFault rules udts (.root r) (.emptyRule name)
  /-- a child that does not stand later in the rule -/
  | child {r i k c : Nat} {name : Text} {ops : List Opcode} {op : Opcode} (hrule : rules[r]? = some (name, ops))
    (hop : ops[i]? = some op) (hchild : op.children[k]? = some c) (out : ¬ (i < c ∧ c < ops.length)) :
    TableFault rules udts (.child r i k) (.badChild name i c)
  | operand {r i : Nat} {name : Text} {ops : List Opcode} {op : Opcode} {e : GrammarError}
    (hrule : rules[r]? = some (name, ops)) (hop : ops[i]? = some op)
    (wrong : OperandFault name rules.length udts.length i op e) : TableFault rules udts (.operand r i) e

/-- **Tables in which nothing is wrong.** -/
structure ValidTables (rules : List (Text × List Opcode)) (udts : List (Text × Bool)) : Prop where
  names : (tableNames rules udts).Pairwise fun n n' => foldCase n ≠ foldCase n'
  roots : ∀ rule ∈ rules, rule.2 ≠ []
  children : ∀ rule ∈ rules, ∀ i op, rule.2[i]? = some op → ∀ c ∈ op.children, i < c ∧ c < rule.2.length
  ruleIds : ∀ rule ∈ rules, ∀ id, .rnm id ∈ rule.2 → id.index < rules.length
  udtIds : ∀ rule ∈ rules, ∀ id, .udt id ∈ rule.2 → id.index < udts.length
  literals : ∀ rule ∈ rules, .tbs [] ∉ rule.2
  ranges : ∀ rule ∈ rules, ∀ min max, .trg min max ∈ rule.2 → min ≤ max
  bounds : ∀ rule ∈ rules, ∀ min max c, .rep min (some max) c ∈ rule.2 → min ≤ max

/-! ## One opcode -/

namespace Opcode

variable {rule : Text} {ruleCount udtCount length i : Nat} {op : Opcode} {e : GrammarError}

theorem badOperand?_eq_some :
    op.badOperand? rule ruleCount udtCount i = some e ↔ OperandFault rule ruleCount udtCount i op e := by
  constructor
  · intro h
    unfold badOperand? at h
    split at h
    all_goals first | cases h | (split at h <;> cases h)
    · exact .rule ‹_›
    · exact .udt ‹_›
    · rename_i literal hempty
      obtain rfl := List.isEmpty_iff.1 hempty
      exact .literal
    · exact .range ‹_›
    · exact .bounds ‹_›
  · rintro (out | out | _ | inverted | inverted)
    · exact if_pos out
    · exact if_pos out
    · rfl
    · exact if_pos inverted
    · exact if_pos inverted

theorem badChild?_eq_none : op.badChild? i length = none ↔ ∀ c ∈ op.children, i < c ∧ c < length := by
  simp only [badChild?, List.find?_eq_none, Bool.or_eq_true, decide_eq_true_eq, not_or, Nat.not_le]

theorem badChild?_eq_some {c : Nat} : op.badChild? i length = some c → ∃ k : Nat, op.children[k]? = some c ∧
    ¬ (i < c ∧ c < length) ∧ ∀ j < k, ∀ d : Nat, op.children[j]? = some d → i < d ∧ d < length := by
  simp only [badChild?, List.find?_eq_some_iff_getElem, Bool.or_eq_true, decide_eq_true_eq, Bool.not_eq_true',
    Bool.or_eq_false_iff, decide_eq_false_iff_not]
  rintro ⟨hout, k, hk, rfl, hbefore⟩
  refine ⟨k, List.getElem?_eq_getElem hk, by omega, fun j hj d hd => ?_⟩
  obtain ⟨hlt, rfl⟩ := List.getElem?_eq_some_iff.1 hd
  have := hbefore j hj
  omega

theorem fault?_eq_none : op.fault? rule ruleCount udtCount length i = none ↔
    (∀ c ∈ op.children, i < c ∧ c < length) ∧ ∀ e, ¬ OperandFault rule ruleCount udtCount i op e := by
  unfold fault?
  rw [← badChild?_eq_none]
  cases op.badChild? i length with
  | some c => simp
  | none => simp [← badOperand?_eq_some, Option.eq_none_iff_forall_ne_some]

end Opcode

/-! ## One rule -/

/-- **What is found is found at the first element that has it.** -/
theorem exists_first_of_findSome? {α β : Type} {f : α → Option β} {xs : List α} {b : β} (h : xs.findSome? f = some b) :
    ∃ (i : Nat) (a : α), xs[i]? = some a ∧ f a = some b ∧ ∀ j < i, ∀ a', xs[j]? = some a' → f a' = none := by
  obtain ⟨before, a, after, rfl, ha, hbefore⟩ := List.findSome?_eq_some_iff.1 h
  refine ⟨before.length, a, by simp, ha, fun j hj a' ha' => ?_⟩
  rw [List.getElem?_append_left hj] at ha'
  exact hbefore a' (List.mem_of_getElem? ha')

section Rule

variable {name : Text} {ops : List Opcode} {r i : Nat} {e : GrammarError}

/-- **In a rule with opcodes** something is wrong at the places of its opcodes only. -/
theorem TableFault.of_rule (hrule : rules[r]? = some (name, ops)) (hne : ops ≠ []) {p : TablePlace}
    (h : TableFault rules udts p e) (hp : p.rule? = some r) :
    (∃ i k c op, p = .child r i k ∧ ops[i]? = some op ∧ op.children[k]? = some c ∧ ¬ (i < c ∧ c < ops.length)) ∨
      ∃ i op, p = .operand r i ∧ ops[i]? = some op ∧ OperandFault name rules.length udts.length i op e := by
  rcases h with _ | hr | ⟨hr, hop, hchild, out⟩ | ⟨hr, hop, wrong⟩
  · cases hp
  all_goals
    obtain rfl := Option.some.inj hp
    obtain ⟨rfl, rfl⟩ := Prod.mk.inj (Option.some.inj (hrule.symm.trans hr))
  · exact absurd rfl hne
  · exact .inl ⟨_, _, _, _, rfl, hop, hchild, out⟩
  · exact .inr ⟨_, _, rfl, hop, wrong⟩

theorem not_tableFault_of_ruleFault? (hrule : rules[r]? = some (name, ops))
    (h : ruleFault? rules.length udts.length (name, ops) = none) {p : TablePlace} (hp : p.rule? = some r) :
    ¬ TableFault rules udts p e := by
  unfold ruleFault? at h
  split at h
  · cases h
  rename_i hne
  have hnone : ∀ {i : Nat} {op : Opcode}, ops[i]? = some op →
      op.fault? name rules.length udts.length ops.length i = none :=
    fun hop => List.findSome?_eq_none_iff.1 h (_, _) (List.mem_zipIdx_iff_getElem?.2 hop)
  intro hwrong
  rcases hwrong.of_rule hrule (by simpa using hne) hp with ⟨i, k, c, op, -, hop, hchild, out⟩ | ⟨i, op, -, hop, wrong⟩
  · exact out ((Opcode.fault?_eq_none.1 (hnone hop)).1 c (List.mem_of_getElem? hchild))
  · exact (Opcode.fault?_eq_none.1 (hnone hop)).2 e wrong

/-- **An opcode is the first with a fault:** wherever something is wrong with an opcode, it is not before this one. -/
def FirstFault (rules : List (Text × List Opcode)) (udts : List (Text × Bool)) (name : Text) (ops : List Opcode)
    (i : Nat) : Prop :=
  ∀ (j : Nat) op, ops[j]? = some op →
    (∃ c ∈ op.children, ¬ (j < c ∧ c < ops.length)) ∨
      (∃ e, OperandFault name rules.length udts.length j op e) → i ≤ j

/-- What is told of the opcodes of a rule is the fault of the first that has one. -/
theorem exists_firstFault
    (h : (ops.zipIdx.findSome? fun p => p.1.fault? name rules.length udts.length ops.length p.2) = some e) :
    ∃ (i : Nat) (op : Opcode), ops[i]? = some op ∧
      op.fault? name rules.length udts.length ops.length i = some e ∧ FirstFault rules udts name ops i := by
  obtain ⟨i, ⟨op, i'⟩, hi, hfault, hbefore⟩ := exists_first_of_findSome? h
  rw [List.getElem?_zipIdx, Option.map_eq_some_iff] at hi
  obtain ⟨_, hop, heq⟩ := hi
  obtain ⟨rfl, rfl⟩ := Prod.mk.inj heq
  rw [Nat.zero_add] at hfault
  refine ⟨_, _, hop, hfault, fun j op' hop' hwrong => ?_⟩
  by_contra hj
  have hnone := hbefore j (Nat.lt_of_not_le hj) (op', 0 + j) (by rw [List.getElem?_zipIdx, hop', Option.map_some])
  rw [Nat.zero_add, Opcode.fault?_eq_none] at hnone
  rcases hwrong with ⟨c, hc, hout⟩ | ⟨e', hwrong⟩
  · exact hout (hnone.1 c hc)
  · exact hnone.2 e' hwrong

/-- Where something is wrong in a rule, it is at the first opcode with a fault or behind it. -/
theorem FirstFault.place (hfirst : FirstFault rules udts name ops i) (hrule : rules[r]? = some (name, ops)) {op : Opcode}
    (hop : ops[i]? = some op) {q : TablePlace} (hq : q.rule? = some r) (hwrong : TableFault rules udts q e) :
    (∃ j l d op', q = .child r j l ∧ i ≤ j ∧ ops[j]? = some op' ∧ op'.children[l]? = some d ∧ ¬ (j < d ∧ d < ops.length)) ∨
      ∃ j, q = .operand r j ∧ i ≤ j := by
  have hne : ops ≠ [] := List.ne_nil_of_mem (List.mem_of_getElem? hop)
  rcases hwrong.of_rule hrule hne hq with ⟨j, l, d, op', rfl, hop', hd, hout⟩ | ⟨j, op', rfl, hop', hwrong⟩
  · exact .inl ⟨j, l, d, op', rfl, hfirst j op' hop' (.inl ⟨d, List.mem_of_getElem? hd, hout⟩), hop', hd, hout⟩
  · exact .inr ⟨j, rfl, hfirst j op' hop' (.inr ⟨_, hwrong⟩)⟩

/-- Before the first bad child of the first opcode with a fault, nothing is wrong in the rule. -/
theorem not_before_child (hrule : rules[r]? = some (name, ops)) (hfirst : FirstFault rules udts name ops i)
    {op : Opcode} (hop : ops[i]? = some op) {k : Nat}
    (hchildren : ∀ l < k, ∀ d : Nat, op.children[l]? = some d → i < d ∧ d < ops.length) {q : TablePlace}
    (hq : q.rule? = some r) (hwrong : TableFault rules udts q e) : ¬ q.Before (.child r i k) := by
  intro hlt
  rcases hfirst.place hrule hop hq hwrong with ⟨j, l, d, op', rfl, hij, hop', hd, hout⟩ | ⟨j, rfl, hij⟩
  · obtain ⟨rfl, hl⟩ := (TablePlace.before_child_child.1 hlt).resolve_left (Nat.not_lt.2 hij)
    obtain rfl := Option.some.inj (hop.symm.trans hop')
    exact hout (hchildren l hl d hd)
  · exact Nat.not_lt.2 hij (TablePlace.before_operand_child.1 hlt)

/-- Before the operands of the first opcode with a fault, nothing is wrong in the rule if its children are not. -/
theorem not_before_operand (hrule : rules[r]? = some (name, ops)) (hfirst : FirstFault rules udts name ops i)
    {op : Opcode} (hop : ops[i]? = some op) (hchildren : ∀ c ∈ op.children, i < c ∧ c < ops.length) {q : TablePlace}
    (hq : q.rule? = some r) (hwrong : TableFault rules udts q e) : ¬ q.Before (.operand r i) := by
  intro hlt
  rcases hfirst.place hrule hop hq hwrong with ⟨j, l, d, op', rfl, hij, hop', hd, hout⟩ | ⟨j, rfl, hij⟩
  · obtain rfl := (TablePlace.before_child_operand.1 hlt).resolve_left (Nat.not_lt.2 hij)
    obtain rfl := Option.some.inj (hop.symm.trans hop')
    exact hout (hchildren d (List.mem_of_getElem? hd))
  · exact Nat.not_lt.2 hij (TablePlace.before_operand_operand.1 hlt)

/-- **What is told of a rule is wrong at a place in it,** and nothing is at a place in it before. -/
theorem exists_tableFault_of_ruleFault? (hrule : rules[r]? = some (name, ops))
    (h : ruleFault? rules.length udts.length (name, ops) = some e) : ∃ p : TablePlace, p.rule? = some r ∧
      TableFault rules udts p e ∧ ∀ q e', q.rule? = some r → TableFault rules udts q e' → ¬ q.Before p := by
  unfold ruleFault? at h
  split at h
  · rename_i hempty
    obtain rfl : ops = [] := List.isEmpty_iff.1 hempty
    cases h
    exact ⟨.root r, rfl, .root hrule, fun q e' hq _ => TablePlace.not_before_root hq⟩
  obtain ⟨i, op, hop, hfault, hfirst⟩ := exists_firstFault h
  unfold Opcode.fault? at hfault
  split at hfault
  · rename_i c hc
    cases hfault
    obtain ⟨k, hk, out, hchildren⟩ := Opcode.badChild?_eq_some hc
    exact ⟨.child r i k, rfl, .child hrule hop hk out, fun q e' => not_before_child hrule hfirst hop hchildren⟩
  · rename_i hc
    exact ⟨.operand r i, rfl, .operand hrule hop (Opcode.badOperand?_eq_some.1 hfault),
      fun q e' => not_before_operand hrule hfirst hop (Opcode.badChild?_eq_none.1 hc)⟩

end Rule

/-! ## All names -/

/-- **The name that is told of repeats one before it,** and none before it does. -/
theorem firstRepeated_eq_some {n : Text} : ∀ {names seen : List Text}, firstRepeated seen names = some n →
    ∃ before after, names = before ++ n :: after ∧ foldCase n ∈ seen ++ before.map foldCase ∧
      firstRepeated seen before = none
  | m :: names, seen, h => by
    unfold firstRepeated at h
    split at h
    · rename_i hseen
      cases h
      exact ⟨[], names, rfl, by simpa using hseen, rfl⟩
    · rename_i hnew
      obtain ⟨before, after, rfl, hmem, hnone⟩ := firstRepeated_eq_some h
      refine ⟨m :: before, after, rfl, by simpa [or_left_comm] using hmem, ?_⟩
      rw [firstRepeated, if_neg hnew, hnone]

/-- Among the first of the names, if they are distinct, nothing is wrong. -/
theorem not_tableFault_of_nodup {names after : List Text} (hnames : tableNames rules udts = names ++ after)
    (hd : (names.map foldCase).Nodup) {j : Nat} (hj : j < names.length) {e : GrammarError} :
    ¬ TableFault rules udts (.name j) e := by
  rintro ⟨lt, earlier, later, same⟩
  rename_i i n n'
  have hi : i < names.length := Nat.lt_trans lt hj
  rw [hnames, List.getElem?_append_left hi] at earlier
  rw [hnames, List.getElem?_append_left hj] at later
  have heq : (names.map foldCase)[i]? = (names.map foldCase)[j]? := by
    rw [List.getElem?_map, List.getElem?_map, earlier, later, Option.map_some, Option.map_some, same]
  exact Nat.ne_of_lt lt ((List.getElem?_inj (by simpa using hi) hd).1 heq)

theorem not_tableFault_name (hd : ((tableNames rules udts).map foldCase).Nodup) {j : Nat} {e : GrammarError} :
    ¬ TableFault rules udts (.name j) e := by
  intro h
  have hj : j < (tableNames rules udts).length := by
    cases h with
    | name _ _ later => exact (List.getElem?_eq_some_iff.1 later).1
  exact not_tableFault_of_nodup (List.append_nil _).symm hd hj h

/-! ## The judgement -/

/-- **What is told of is wrong at a place,** and nothing is at a place before. -/
theorem exists_tableFault {e : GrammarError} (h : tablesFault? rules udts = some e) :
    ∃ p, TableFault rules udts p e ∧ ∀ q e', TableFault rules udts q e' → ¬ q.Before p := by
  unfold tablesFault? at h
  split at h
  · rename_i n hn
    cases h
    obtain ⟨before, after, hnames, hmem, hnone⟩ := firstRepeated_eq_some hn
    obtain ⟨m, hm, hsame⟩ := List.mem_map.1 hmem
    obtain ⟨i, hi, rfl⟩ := List.getElem_of_mem hm
    refine ⟨.name before.length, .name (n := before[i]) hi ?_ ?_ hsame, fun q e' hwrong hbefore => ?_⟩
    · rw [tableNames, hnames, List.getElem?_append_left hi, List.getElem?_eq_getElem hi]
    · rw [tableNames, hnames, List.getElem?_append_right (Nat.le_refl _), Nat.sub_self]
      rfl
    · obtain ⟨j, hj, rfl⟩ := TablePlace.before_name.1 hbefore
      exact not_tableFault_of_nodup hnames (firstRepeated_eq_none.1 hnone).2 hj hwrong
  · rename_i hnames
    obtain ⟨r, ⟨name, ops⟩, hrule, hfault, hearlier⟩ := exists_first_of_findSome? h
    obtain ⟨p, hp, hwrong, hfirst⟩ := exists_tableFault_of_ruleFault? hrule hfault
    refine ⟨p, hwrong, fun q e' hq hbefore => ?_⟩
    rcases hbefore.rule? hp with hnone | ⟨r', hle, hr'⟩
    · cases q <;> cases hnone
      exact not_tableFault_name (firstRepeated_eq_none.1 hnames).2 hq
    rcases Nat.eq_or_lt_of_le hle with rfl | hlt
    · exact hfirst q e' hr' hq hbefore
    · have hr := (List.getElem?_eq_some_iff.1 hrule).1
      have hrule' := List.getElem?_eq_getElem (Nat.lt_trans hlt hr)
      exact not_tableFault_of_ruleFault? hrule' (hearlier r' hlt _ hrule') hr' hq

theorem tablesFault?_eq_none : tablesFault? rules udts = none ↔ ∀ p e, ¬ TableFault rules udts p e := by
  constructor
  · intro h p e hwrong
    unfold tablesFault? at h
    split at h
    · cases h
    rename_i hnames
    have hrules := List.findSome?_eq_none_iff.1 h
    cases hp : p.rule? with
    | none =>
      cases p <;> cases hp
      exact not_tableFault_name (firstRepeated_eq_none.1 hnames).2 hwrong
    | some r =>
      have hr : ∃ rule, rules[r]? = some rule := by
        cases hwrong <;> cases hp <;> exact ⟨_, ‹_›⟩
      obtain ⟨rule, hrule⟩ := hr
      exact not_tableFault_of_ruleFault? hrule (hrules rule (List.mem_of_getElem? hrule)) hp hwrong
  · intro h
    cases hfault : tablesFault? rules udts with
    | none => rfl
    | some e =>
      obtain ⟨p, hwrong, -⟩ := exists_tableFault hfault
      exact absurd hwrong (h p e)

theorem TableFault.unique {p : TablePlace} {e e' : GrammarError} (h : TableFault rules udts p e)
    (h' : TableFault rules udts p e') : e = e' := by
  cases h with
  | name _ _ later _ =>
    cases h' with
    | name _ _ later' _ => rw [Option.some.inj (later.symm.trans later')]
  | root hrule =>
    cases h' with
    | root hrule' => cases hrule.symm.trans hrule'; rfl
  | child hrule hop hchild _ =>
    cases h' with
    | child hrule' hop' hchild' _ =>
      cases hrule.symm.trans hrule'
      cases hop.symm.trans hop'
      cases hchild.symm.trans hchild'
      rfl
  | operand hrule hop wrong =>
    cases h' with
    | operand hrule' hop' wrong' =>
      cases hrule.symm.trans hrule'
      cases hop.symm.trans hop'
      exact Option.some.inj ((Opcode.badOperand?_eq_some.2 wrong).symm.trans (Opcode.badOperand?_eq_some.2 wrong'))

/-- **What is told of is what is wrong at the first place.** -/
theorem tablesFault?_eq_some {e : GrammarError} : tablesFault? rules udts = some e ↔
    ∃ p, TableFault rules udts p e ∧ ∀ q e', TableFault rules udts q e' → p = q ∨ p.Before q := by
  constructor
  · intro h
    obtain ⟨p, hwrong, hfirst⟩ := exists_tableFault h
    exact ⟨p, hwrong, fun q e' hq => TablePlace.eq_or_before (hfirst q e' hq)⟩
  · rintro ⟨p, hwrong, hfirst⟩
    cases hfault : tablesFault? rules udts with
    | none => exact absurd hwrong (tablesFault?_eq_none.1 hfault p e)
    | some e' =>
      obtain ⟨q, hwrong', hfirst'⟩ := exists_tableFault hfault
      obtain rfl := (hfirst q e' hwrong').resolve_right (hfirst' p e hwrong)
      rw [hwrong.unique hwrong']

theorem ValidTables.not_tableFault (h : ValidTables rules udts) (p : TablePlace) (e : GrammarError) :
    ¬ TableFault rules udts p e := by
  rintro (⟨lt, earlier, later, same⟩ | hrule | ⟨hrule, hop, hchild, out⟩ | ⟨hrule, hop, wrong⟩)
  · obtain ⟨hi, rfl⟩ := List.getElem?_eq_some_iff.1 earlier
    obtain ⟨hj, rfl⟩ := List.getElem?_eq_some_iff.1 later
    exact List.pairwise_iff_getElem.1 h.names _ _ hi hj lt same
  · exact h.roots _ (List.mem_of_getElem? hrule) rfl
  · exact out (h.children _ (List.mem_of_getElem? hrule) _ _ hop _ (List.mem_of_getElem? hchild))
  · have hr := List.mem_of_getElem? hrule
    have ho := List.mem_of_getElem? hop
    cases wrong with
    | rule out => exact Nat.not_lt.2 out (h.ruleIds _ hr _ ho)
    | udt out => exact Nat.not_lt.2 out (h.udtIds _ hr _ ho)
    | literal => exact h.literals _ hr ho
    | range inverted => exact Nat.not_le.2 inverted (h.ranges _ hr _ _ ho)
    | bounds inverted => exact Nat.not_le.2 inverted (h.bounds _ hr _ _ _ ho)

/-- Where nothing is wrong with any operand, nothing is wrong with those of an opcode of a rule. -/
theorem not_operandFault (h : ∀ p e, ¬ TableFault rules udts p e) {rule : Text × List Opcode} (hr : rule ∈ rules)
    {op : Opcode} (hop : op ∈ rule.2) : ∃ i : Nat, ∀ e, ¬ OperandFault rule.1 rules.length udts.length i op e := by
  obtain ⟨r, hrule⟩ := List.getElem?_of_mem hr
  obtain ⟨i, hi⟩ := List.getElem?_of_mem hop
  exact ⟨i, fun e hwrong => h _ _ (.operand hrule hi hwrong)⟩

theorem validTables_of_not_tableFault (h : ∀ p e, ¬ TableFault rules udts p e) : ValidTables rules udts where
  names := List.pairwise_iff_getElem.2 fun _ _ hi hj lt same =>
    h _ _ (.name lt (List.getElem?_eq_getElem hi) (List.getElem?_eq_getElem hj) same)
  roots rule hr hnil := by
    obtain ⟨name, ops⟩ := rule
    obtain rfl : ops = [] := hnil
    obtain ⟨r, hrule⟩ := List.getElem?_of_mem hr
    exact h _ _ (.root hrule)
  children rule hr i op hop c hc := by
    by_contra out
    obtain ⟨r, hrule⟩ := List.getElem?_of_mem hr
    obtain ⟨k, hchild⟩ := List.getElem?_of_mem hc
    exact h _ _ (.child hrule hop hchild out)
  ruleIds rule hr id hid := by
    obtain ⟨i, hi⟩ := not_operandFault h hr hid
    exact Nat.lt_of_not_le fun out => hi _ (.rule out)
  udtIds rule hr id hid := by
    obtain ⟨i, hi⟩ := not_operandFault h hr hid
    exact Nat.lt_of_not_le fun out => hi _ (.udt out)
  literals rule hr hnil := by
    obtain ⟨i, hi⟩ := not_operandFault h hr hnil
    exact hi _ .literal
  ranges rule hr min max hmem := by
    obtain ⟨i, hi⟩ := not_operandFault h hr hmem
    exact Nat.le_of_not_lt fun inverted => hi _ (.range inverted)
  bounds rule hr min max c hmem := by
    obtain ⟨i, hi⟩ := not_operandFault h hr hmem
    exact Nat.le_of_not_lt fun inverted => hi _ (.bounds inverted)

theorem validTables_iff : ValidTables rules udts ↔ ∀ p e, ¬ TableFault rules udts p e :=
  ⟨fun h => h.not_tableFault, validTables_of_not_tableFault⟩

/-! ## What accepted tables become -/

/-- **An opcode as it is kept:** a literal that is matched in any case is in lower case, all else is as it was. -/
inductive Opcode.Kept : Opcode → Opcode → Prop
  | folded (literal : Text) : Kept (.tls literal) (.tls (literal.map Char.toLower))
  | same {op : Opcode} (h : ∀ literal, op ≠ .tls literal) : Kept op op

theorem Opcode.kept_lowered (op : Opcode) : op.Kept op.lowered := by
  cases op with
  | tls literal => exact .folded literal
  | _ => exact .same (fun _ h => by cases h)

/-- **A grammar that keeps raw tables,** each rule and each terminal in its place. -/
structure Grammar.KeepsTables (g : Grammar) (rules : List (Text × List Opcode)) (udts : List (Text × Bool)) : Prop where
  rules : List.Forall₂ (fun raw rule => rule.name = raw.1 ∧ List.Forall₂ Opcode.Kept raw.2 rule.opcodes.toList)
    rules g.rules.toList
  udts : List.Forall₂ (fun raw udt => udt.name = raw.1 ∧ udt.acceptsEmpty = raw.2) udts g.udts.toList

/-- **What bears a name,** ASCII case aside. -/
def Symbol.Bears (rules : List (Text × List Opcode)) (udts : List (Text × Bool)) (name : Text) : Symbol → Prop
  | .rule id => ∃ raw, rules[id.index]? = some raw ∧ foldCase raw.1 = foldCase name
  | .udt id => ∃ raw, udts[id.index]? = some raw ∧ foldCase raw.1 = foldCase name

namespace Grammar

variable {g : Grammar}

theorem keepsTables_ofTables (h : ofTables rules udts = .ok g) : g.KeepsTables rules udts := by
  obtain ⟨-, hrules, hudts⟩ := ofTables_eq_ok h
  refine ⟨?_, ?_⟩
  · rw [hrules, List.forall₂_map_right_iff]
    refine List.forall₂_same.2 fun raw _ => ⟨rfl, ?_⟩
    rw [Rule.ofTable, List.forall₂_map_right_iff]
    exact List.forall₂_same.2 fun op _ => op.kept_lowered
  · rw [hudts, List.forall₂_map_right_iff]
    exact List.forall₂_same.2 fun raw _ => ⟨rfl, rfl⟩

theorem exists_sameName_iff {α : Type} {xs : List α} {nameOf : α → Text} {i : Nat} {name : Text} :
    (∃ n, (xs.map nameOf)[i]? = some n ∧ sameName name n = true) ↔
      ∃ x, xs[i]? = some x ∧ foldCase (nameOf x) = foldCase name := by
  simp only [List.getElem?_map, Option.map_eq_some_iff, sameName_iff]
  constructor
  · rintro ⟨_, ⟨x, hx, rfl⟩, hsame⟩
    exact ⟨x, hx, hsame.symm⟩
  · rintro ⟨x, hx, hsame⟩
    exact ⟨_, ⟨x, hx, rfl⟩, hsame.symm⟩

theorem lookup_eq_some (h : ofTables rules udts = .ok g) {name : Text} {symbol : Symbol} :
    g.lookup name = some symbol ↔ symbol.Bears rules udts name := by
  obtain ⟨-, hrules, hudts⟩ := ofTables_eq_ok h
  have hd := distinct_ofTables h
  have hruleNames : g.rules.toList.map Rule.name = rules.map (·.1) := by
    rw [hrules, List.map_map]
    rfl
  have hudtNames : g.udts.toList.map Udt.name = udts.map (·.1) := by
    rw [hudts, List.map_map]
    rfl
  rw [hruleNames, hudtNames] at hd
  rw [lookup, hruleNames, hudtNames]
  cases symbol with
  | rule id =>
    rw [Symbol.Bears, ← exists_sameName_iff]
    exact ⟨resolveName_eq_rule, fun ⟨n, hn, hsame⟩ => resolveName_rule hd hn hsame⟩
  | udt id =>
    rw [Symbol.Bears, ← exists_sameName_iff]
    exact ⟨resolveName_eq_udt, fun ⟨n, hn, hsame⟩ => resolveName_udt hd hn hsame⟩

end Grammar

/-- **The judgement on raw tables.**  They are a grammar exactly if they are valid.  Otherwise the error tells what is
wrong at the first place where something is: the names come first, then the rules in order, in a rule the opcodes in
order, and of an opcode its children before its other operands.  A grammar keeps its tables, and a name stands for the
one rule or terminal that bears it, or for nothing if none does. -/
theorem ofTables_judges (rules : List (Text × List Opcode)) (udts : List (Text × Bool)) :
    ((∃ g, Grammar.ofTables rules udts = .ok g) ↔ ValidTables rules udts) ∧
    (∀ e, Grammar.ofTables rules udts = .error e ↔
      ∃ p, TableFault rules udts p e ∧ ∀ q e', TableFault rules udts q e' → p = q ∨ p.Before q) ∧
    ∀ g, Grammar.ofTables rules udts = .ok g → g.KeepsTables rules udts ∧ ∀ name,
      (∀ symbol, g.lookup name = some symbol ↔ symbol.Bears rules udts name) ∧
      (∀ symbol symbol' : Symbol, symbol.Bears rules udts name → symbol'.Bears rules udts name → symbol = symbol') ∧
      (g.lookup name = none ↔ ∀ symbol : Symbol, ¬ symbol.Bears rules udts name) := by
  refine ⟨?_, fun e => ?_, fun g hg => ⟨Grammar.keepsTables_ofTables hg, fun name => ⟨fun symbol => ?_,
    fun symbol symbol' h h' => ?_, ?_⟩⟩⟩
  · rw [validTables_iff, ← tablesFault?_eq_none, Grammar.ofTables]
    cases tablesFault? rules udts <;> simp
  · rw [← tablesFault?_eq_some, Grammar.ofTables]
    cases tablesFault? rules udts <;> simp
  · exact Grammar.lookup_eq_some hg
  · rw [← Grammar.lookup_eq_some hg] at h h'
    exact Option.some.inj (h.symm.trans h')
  · simp only [← Grammar.lookup_eq_some hg, Option.eq_none_iff_forall_ne_some, ne_eq]

/-- Tables of a rule that repeats a terminal behind a greeting. -/
def greetingTables : List (Text × List Opcode) × List (Text × Bool) :=
  ([("Greeting", [.cat [1, 2], .tls "Hi ", .rep 1 none 3, .udt ⟨0⟩])], [("Letter", false)])

theorem ofTables_judges_greeting :
    ∃ g, Grammar.ofTables greetingTables.1 greetingTables.2 = .ok g ∧ g.KeepsTables greetingTables.1 greetingTables.2 ∧
      g.lookup "LETTER" = some (.udt ⟨0⟩) :=
  have ⟨g, hg⟩ : ∃ g, Grammar.ofTables greetingTables.1 greetingTables.2 = .ok g := ⟨_, rfl⟩
  have h := (ofTables_judges greetingTables.1 greetingTables.2).2.2 g hg
  ⟨g, hg, h.1, ((h.2 "LETTER").1 (.udt ⟨0⟩)).2 ⟨_, rfl, rfl⟩⟩

/-- Of many faults the first is told of: the child that does not stand later, before the literal and the range. -/
example : Grammar.ofTables [("a", [.tls "x"]), ("b", [.cat [1, 0, 7], .tbs "", .trg 2 1]), ("c", [])] [] =
    .error (.badChild "b" 0 0) := rfl

end SignIn
