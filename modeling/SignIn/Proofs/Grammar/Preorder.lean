import Mathlib.Logic.ExistsUnique
import Mathlib.Logic.Relation
import SignIn.Grammar.Opcode
/-!
# Opcodes in pre-order

The opcodes of a rule are a tree by their operands' indices.  They are in pre-order (`IsPreorder`) if everything but the
root is the operand of one opcode, which stands before it, and the subtrees of the operands of an opcode fill what stands
between the opcode and the end of its own, one after the other.

`Spans` says the same along the tree: an opcode, and behind it the subtrees of its operands in a row.  An emitter makes
that true step by step; what it means for indices is told here, once (`Spans.isPreorder`).
-/
namespace SignIn

section

variable (ops : Array Opcode)

/-- One opcode is an operand of another. -/
def IsChild (i j : Nat) : Prop := ∃ op, ops[i]? = some op ∧ j ∈ op.children

/-- **One opcode stands in the subtree of another.** -/
def Below : Nat → Nat → Prop := Relation.ReflTransGen (IsChild ops)

/-- **The subtree of an opcode is a range of indices,** from its own on. -/
def Occupies (i j : Nat) : Prop := ∀ k, Below ops i k ↔ i ≤ k ∧ k < j

/-- **Subtrees fill a range,** one after the other. -/
inductive Consecutive : Nat → List Nat → Nat → Prop where
  | nil {a} : Consecutive a [] a
  | cons {a m b cs} (first : Occupies ops a m) (rest : Consecutive m cs b) : Consecutive a (a :: cs) b

/-- **Opcodes are in pre-order.** -/
structure IsPreorder : Prop where
  root : Occupies ops 0 ops.size
  forward : ∀ i j, IsChild ops i j → i < j ∧ j < ops.size
  parent : ∀ j, 0 < j → j < ops.size → ∃! i, IsChild ops i j
  siblings : ∀ (i : Nat) (op : Opcode), ops[i]? = some op → ∃ j, Occupies ops i j ∧ Consecutive ops (i + 1) op.children j

mutual

inductive Spans : Nat → Nat → Prop where
  | node {i j op} (here : ops[i]? = some op) (row : Row (i + 1) op.children j) : Spans i j

inductive Row : Nat → List Nat → Nat → Prop where
  | nil {a} : Row a [] a
  | cons {a m b cs} (first : Spans a m) (rest : Row m cs b) : Row a (a :: cs) b

end

end

variable {ops : Array Opcode} {i j k p : Nat}

theorem isChild_iff {op : Opcode} (h : ops[i]? = some op) : IsChild ops i k ↔ k ∈ op.children := by
  simp [IsChild, h]

mutual

theorem Spans.lt : ∀ {i j : Nat}, Spans ops i j → i < j
  | _, _, .node _ row => row.le

theorem Row.le : ∀ {a b : Nat} {cs : List Nat}, Row ops a cs b → a ≤ b
  | _, _, _, .nil => Nat.le_refl _
  | _, _, _, .cons first rest => Nat.le_trans (Nat.le_of_lt first.lt) rest.le

end

theorem Row.mem : ∀ {a b : Nat} {cs : List Nat}, Row ops a cs b → k ∈ cs → a ≤ k ∧ k < b
  | _, _, _, .nil, hk => by cases hk
  | a, _, _, .cons first rest, hk => by
    have hlt := first.lt
    have hle := rest.le
    rcases List.mem_cons.1 hk with rfl | hk
    · omega
    · have := rest.mem hk
      omega

mutual

/-- **Operands stand behind their opcode and within its subtree.** -/
theorem Spans.child : ∀ {i j : Nat}, Spans ops i j → i ≤ p → p < j → IsChild ops p k → p < k ∧ k < j
  | i, _, .node here row, hlow, hhigh, hchild => by
    rcases Nat.eq_or_lt_of_le hlow with rfl | hlow
    · exact row.mem ((isChild_iff here).1 hchild)
    · exact row.child hlow hhigh hchild

theorem Row.child : ∀ {a b : Nat} {cs : List Nat}, Row ops a cs b → a ≤ p → p < b → IsChild ops p k → p < k ∧ k < b
  | _, _, _, .nil, hlow, hhigh, _ => by omega
  | _, b, _, @Row.cons _ _ m _ _ first rest, hlow, hhigh, hchild => by
    rcases Nat.lt_or_ge p m with hp | hp
    · have := first.child hlow hp hchild
      have := rest.le
      omega
    · exact rest.child hp hhigh hchild

end

mutual

theorem Spans.inside : ∀ {i j : Nat}, Spans ops i j → i ≤ k → k < j → ∃ l, Spans ops k l
  | i, j, .node here row, hlow, hhigh => by
    rcases Nat.eq_or_lt_of_le hlow with rfl | hlow
    · exact ⟨j, .node here row⟩
    · exact row.inside hlow hhigh

theorem Row.inside : ∀ {a b : Nat} {cs : List Nat}, Row ops a cs b → a ≤ k → k < b → ∃ l, Spans ops k l
  | _, _, _, .nil, hlow, hhigh => by omega
  | _, _, _, @Row.cons _ _ m _ _ first rest, hlow, hhigh => by
    rcases Nat.lt_or_ge k m with hk | hk
    · exact first.inside hlow hk
    · exact rest.inside hk hhigh

end

mutual

theorem Spans.reaches : ∀ {i j : Nat}, Spans ops i j → i ≤ k → k < j → Below ops i k
  | i, _, .node here row, hlow, hhigh => by
    rcases Nat.eq_or_lt_of_le hlow with rfl | hlow
    · exact .refl
    · obtain ⟨c, hc, hbelow⟩ := row.reaches hlow hhigh
      exact .head ((isChild_iff here).2 hc) hbelow

theorem Row.reaches : ∀ {a b : Nat} {cs : List Nat}, Row ops a cs b → a ≤ k → k < b → ∃ c ∈ cs, Below ops c k
  | _, _, _, .nil, hlow, hhigh => by omega
  | a, _, _, @Row.cons _ _ m _ _ first rest, hlow, hhigh => by
    rcases Nat.lt_or_ge k m with hk | hk
    · exact ⟨a, List.mem_cons_self, first.reaches hlow hk⟩
    · obtain ⟨c, hc, hbelow⟩ := rest.reaches hk hhigh
      exact ⟨c, List.mem_cons_of_mem _ hc, hbelow⟩

end

/-- **A subtree is the range it spans.** -/
theorem Spans.occupies (h : Spans ops i j) : Occupies ops i j := by
  intro k
  refine ⟨fun hk => ?_, fun hk => h.reaches hk.1 hk.2⟩
  induction hk with
  | refl => exact ⟨Nat.le_refl i, h.lt⟩
  | tail _ hchild ih =>
    have := h.child ih.1 ih.2 hchild
    omega

theorem Row.consecutive : ∀ {a b : Nat} {cs : List Nat}, Row ops a cs b → Consecutive ops a cs b
  | _, _, _, .nil => .nil
  | _, _, _, .cons first rest => .cons first.occupies rest.consecutive

mutual

/-- **Everything in a subtree but its root is an operand of one opcode there,** which stands before it. -/
theorem Spans.parent : ∀ {i j : Nat}, Spans ops i j → i < k → k < j →
    ∃ p, i ≤ p ∧ p < k ∧ ∀ q, i ≤ q → q < j → (IsChild ops q k ↔ q = p)
  | i, j, .node here row, hlow, hhigh => by
    rcases row.parent hlow hhigh with ⟨hmem, hnone⟩ | ⟨hnot, p, hp, hpk, honly⟩
    · refine ⟨i, Nat.le_refl i, hlow, fun q hq hqj => ?_⟩
      rcases Nat.eq_or_lt_of_le hq with rfl | hq
      · exact iff_of_true ((isChild_iff here).2 hmem) rfl
      · exact iff_of_false (hnone q hq hqj) (by omega)
    · refine ⟨p, by omega, hpk, fun q hq hqj => ?_⟩
      rcases Nat.eq_or_lt_of_le hq with rfl | hq
      · exact iff_of_false (fun hchild => hnot ((isChild_iff here).1 hchild)) (by omega)
      · exact honly q hq hqj

/-- In a row, the roots of the subtrees are operands of nothing there. -/
theorem Row.parent : ∀ {a b : Nat} {cs : List Nat}, Row ops a cs b → a ≤ k → k < b →
    (k ∈ cs ∧ ∀ q, a ≤ q → q < b → ¬ IsChild ops q k) ∨
      (k ∉ cs ∧ ∃ p, a ≤ p ∧ p < k ∧ ∀ q, a ≤ q → q < b → (IsChild ops q k ↔ q = p))
  | _, _, _, .nil, hlow, hhigh => by omega
  | a, b, _, @Row.cons _ _ m _ cs first rest, hlow, hhigh => by
    have hlt := first.lt
    -- nothing in the subtrees behind has an operand in the first, and nothing in the first has one behind it
    rcases Nat.lt_or_ge k m with hk | hk
    · have hcs : k ∉ cs := fun hmem => absurd (rest.mem hmem).1 (by omega)
      have hrest (q : Nat) (hq : m ≤ q) (hqb : q < b) : ¬ IsChild ops q k := fun hchild =>
        absurd (rest.child hq hqb hchild).1 (by omega)
      rcases Nat.eq_or_lt_of_le hlow with rfl | hlow
      · refine .inl ⟨List.mem_cons_self, fun q hq hqb hchild => ?_⟩
        have := ((Row.cons first rest).child hq hqb hchild).1
        omega
      · obtain ⟨p, hp, hpk, honly⟩ := first.parent hlow hk
        refine .inr ⟨by simp [hcs, Nat.ne_of_gt hlow], p, hp, hpk, fun q hq hqb => ?_⟩
        rcases Nat.lt_or_ge q m with hqm | hqm
        · exact honly q hq hqm
        · exact iff_of_false (hrest q hqm hqb) (by omega)
    · have hfirst (q : Nat) (hq : a ≤ q) (hqm : q < m) : ¬ IsChild ops q k := fun hchild =>
        absurd (first.child hq hqm hchild).2 (by omega)
      rcases rest.parent hk hhigh with ⟨hmem, hnone⟩ | ⟨hnot, p, hp, hpk, honly⟩
      · refine .inl ⟨List.mem_cons_of_mem _ hmem, fun q hq hqb => ?_⟩
        rcases Nat.lt_or_ge q m with hqm | hqm
        · exact hfirst q hq hqm
        · exact hnone q hqm hqb
      · refine .inr ⟨List.not_mem_cons_of_ne_of_not_mem (by omega) hnot, p, by omega, hpk, fun q hq hqb => ?_⟩
        rcases Nat.lt_or_ge q m with hqm | hqm
        · exact iff_of_false (hfirst q hq hqm) (by omega)
        · exact honly q hqm hqb

end

theorem IsChild.lt_size (h : IsChild ops i j) : i < ops.size := by
  obtain ⟨op, hop, -⟩ := h
  exact (Array.getElem?_eq_some_iff.1 hop).1

/-- **A subtree that spans all the opcodes has them in pre-order.** -/
theorem Spans.isPreorder (h : Spans ops 0 ops.size) : IsPreorder ops where
  root := h.occupies
  forward i j hchild := h.child (Nat.zero_le i) hchild.lt_size hchild
  parent j hlow hhigh := by
    obtain ⟨p, -, hpj, honly⟩ := h.parent hlow hhigh
    refine ⟨p, (honly p (Nat.zero_le p) (by omega)).2 rfl, fun q hchild => ?_⟩
    exact (honly q (Nat.zero_le q) hchild.lt_size).1 hchild
  siblings i op hop := by
    obtain ⟨l, hl⟩ := h.inside (Nat.zero_le i) (Array.getElem?_eq_some_iff.1 hop).1
    obtain ⟨here, row⟩ := hl
    rw [hop, Option.some.injEq] at here
    subst here
    exact ⟨l, (Spans.node hop row).occupies, row.consecutive⟩

end SignIn
