import SignIn.Match.Tree
/-!
# The flat form of a tree

The records of a forest are brackets: balanced, each paired with its other side (`Node.paired_recordsOfAll`), and the
forest is read back from them (`NodeRecord.forest_records`).  Those of a tree with operators that are still open are
the beginning of such brackets (`Tree.level?_records`).

`Ledger` is the flat form as it can be written while the match goes on: one list of records, the length it had when
each open operator was entered, and the places of the beginnings that wait for their end.  What an operator that fails
has written is cut off.  A ledger that mirrors a tree goes on mirroring it (`Ledger.Mirrors.down`, `Ledger.Mirrors.up`).
-/
namespace SignIn

/-! ## Brackets -/

namespace NodeRecord

/-- **How many nodes are open after some records,** a number being open before them, unless at some point more have ended
than begun. -/
def level? : Nat → List NodeRecord → Option Nat
  | level, [] => some level
  | level, r :: rs =>
    if r.opens then level? (level + 1) rs
    else if level = 0 then none
    else level? (level - 1) rs

/-- **Records that are the beginning of balanced brackets.** -/
def Begun (rs : List NodeRecord) : Prop := ∃ rest, level? 0 (rs ++ rest) = some 0

theorem level?_append : ∀ (xs ys : List NodeRecord) (level : Nat),
    level? level (xs ++ ys) = (level? level xs).bind fun level => level? level ys
  | [], _, _ => rfl
  | r :: rs, ys, level => by
    rw [List.cons_append, level?, level?]
    split
    · exact level?_append rs ys _
    · split
      · rfl
      · exact level?_append rs ys _

/-- Nodes that are open can end. -/
theorem begun_of_level? {rs : List NodeRecord} {k : Nat} (h : level? 0 rs = some k) : Begun rs := by
  refine ⟨List.replicate k ⟨false, .rule ⟨0⟩, 0, 0, 0⟩, ?_⟩
  rw [level?_append, h]
  clear h
  induction k with
  | zero => rfl
  | succ k ih => exact ih

end NodeRecord

mutual

theorem Node.level?_records :
    ∀ (n : Node) (start level : Nat), NodeRecord.level? level (n.records start) = some level
  | .mk symbol offset length children, start, level => by
    rw [Node.records, NodeRecord.level?, if_pos rfl, NodeRecord.level?_append, Node.level?_recordsOfAll children]
    rfl

/-- **The records of a forest are balanced brackets.** -/
theorem Node.level?_recordsOfAll : ∀ (ns : List Node) (start level : Nat),
    NodeRecord.level? level (Node.recordsOfAll start ns) = some level
  | [], _, _ => rfl
  | n :: ns, start, level => by
    rw [Node.recordsOfAll, NodeRecord.level?_append, Node.level?_records n]
    exact Node.level?_recordsOfAll ns _ level

end

/-- **The records of open operators begin nodes and do not end them.** -/
theorem Frame.level?_recordsOfAll : ∀ (fs : List Frame) (start level : Nat),
    ∃ k, NodeRecord.level? level (Frame.recordsOfAll start fs) = some k
  | [], _, level => ⟨level, rfl⟩
  | f :: fs, start, level => by
    rw [Frame.recordsOfAll, NodeRecord.level?_append, Frame.records]
    cases f.symbol with
    | none =>
      dsimp only
      rw [Node.level?_recordsOfAll]
      exact Frame.level?_recordsOfAll fs _ level
    | some symbol =>
      dsimp only
      rw [NodeRecord.level?, if_pos rfl, Node.level?_recordsOfAll]
      exact Frame.level?_recordsOfAll fs _ (level + 1)

/-- **At no point of the records of a tree have more nodes ended than begun.** -/
theorem Tree.level?_records (t : Tree) : ∃ k, NodeRecord.level? 0 t.records = some k := by
  rw [Tree.records, NodeRecord.level?_append, Node.level?_recordsOfAll]
  exact Frame.level?_recordsOfAll _ _ 0

theorem Tree.begun_records (t : Tree) : NodeRecord.Begun t.records :=
  have ⟨_, hk⟩ := t.level?_records
  NodeRecord.begun_of_level? hk

/-! ## The two sides of a node -/

/-- **The two sides of a node** have its symbol, its offset and its length in common. -/
structure NodeRecord.Mates (r r' : NodeRecord) : Prop where
  opens : r'.opens = !r.opens
  symbol : r'.symbol = r.symbol
  offset : r'.offset = r.offset
  length : r'.length = r.length

/-- **Records that are paired,** the first of them at index `start`: each tells where its other side is, which tells where
it is itself, and of the two the beginning comes first. -/
def NodeRecord.Paired (start : Nat) (rs : List NodeRecord) : Prop :=
  ∀ i r, rs[i]? = some r → start ≤ r.pair ∧ (r.opens = true ↔ start + i < r.pair) ∧
    ∃ r', rs[r.pair - start]? = some r' ∧ r'.pair = start + i ∧ r.Mates r'

namespace NodeRecord

theorem paired_nil (start : Nat) : Paired start [] := fun i r h => by simp at h

theorem Paired.append {start : Nat} {xs ys : List NodeRecord} (hx : Paired start xs)
    (hy : Paired (start + xs.length) ys) : Paired start (xs ++ ys) := by
  intro i r h
  rcases Nat.lt_or_ge i xs.length with hi | hi
  · rw [List.getElem?_append_left hi] at h
    obtain ⟨hle, hopens, r', hr', hmate⟩ := hx i r h
    refine ⟨hle, hopens, r', ?_, hmate⟩
    rwa [List.getElem?_append_left (List.getElem?_eq_some_iff.1 hr').1]
  · rw [List.getElem?_append_right hi] at h
    obtain ⟨hle, hopens, r', hr', hpair, hmate⟩ := hy _ r h
    refine ⟨by omega, by rw [hopens]; omega, r', ?_, by omega, hmate⟩
    rw [List.getElem?_append_right (by omega), show r.pair - start - xs.length = r.pair - (start + xs.length) by omega]
    exact hr'

/-- Around paired records, the two sides of a node are paired. -/
theorem Paired.node {start : Nat} {rs : List NodeRecord} {a b : NodeRecord} (h : Paired (start + 1) rs)
    (ha : a.opens = true) (hpair : a.pair = start + 1 + rs.length) (hpair' : b.pair = start) (hab : a.Mates b) :
    Paired start (a :: (rs ++ [b])) := by
  have hlast : (a :: (rs ++ [b]))[rs.length + 1]? = some b := by simp
  have hb : b.opens = false := by rw [hab.opens, ha]; rfl
  intro i r hr
  cases i with
  | zero =>
    obtain rfl := Option.some.inj hr
    refine ⟨by omega, by simp [ha]; omega, b, ?_, by omega, hab⟩
    rw [hpair, show start + 1 + rs.length - start = rs.length + 1 by omega]
    exact hlast
  | succ i =>
    rw [List.getElem?_cons_succ] at hr
    rcases Nat.lt_or_ge i rs.length with hi | hi
    · rw [List.getElem?_append_left hi] at hr
      obtain ⟨hle, hopens, r', hr', hback, hmate⟩ := h i r hr
      refine ⟨by omega, by rw [hopens]; omega, r', ?_, by omega, hmate⟩
      rw [show r.pair - start = r.pair - (start + 1) + 1 by omega, List.getElem?_cons_succ,
        List.getElem?_append_left (List.getElem?_eq_some_iff.1 hr').1]
      exact hr'
    · rw [List.getElem?_append_right hi] at hr
      obtain rfl : i = rs.length := by
        have := (List.getElem?_eq_some_iff.1 hr).1
        simp only [List.length_singleton] at this
        omega
      rw [Nat.sub_self] at hr
      obtain rfl := Option.some.inj hr
      refine ⟨by omega, by simp [hb]; omega, a, by rw [hpair', Nat.sub_self]; rfl, by omega, ?_⟩
      exact ⟨by rw [ha, hb]; rfl, hab.symbol.symm, hab.offset.symm, hab.length.symm⟩

end NodeRecord

mutual

theorem Node.paired_records : ∀ (n : Node) (start : Nat), NodeRecord.Paired start (n.records start)
  | .mk symbol offset length children, start => by
    rw [Node.records]
    exact (Node.paired_recordsOfAll children (start + 1)).node rfl rfl rfl ⟨rfl, rfl, rfl, rfl⟩

theorem Node.paired_recordsOfAll : ∀ (ns : List Node) (start : Nat), NodeRecord.Paired start (Node.recordsOfAll start ns)
  | [], start => NodeRecord.paired_nil start
  | n :: ns, start => (Node.paired_records n start).append (Node.paired_recordsOfAll ns _)

end

/-- **Records that are balanced:** they are so as brackets, and each is paired with its other side. -/
structure NodeRecord.Balanced (rs : List NodeRecord) : Prop where
  level : NodeRecord.level? 0 rs = some 0
  paired : NodeRecord.Paired 0 rs
  mutual_pair : ∀ (i j : Nat) (r r' : NodeRecord), rs[i]? = some r → rs[j]? = some r' → (r.pair = j ↔ r'.pair = i)

/-- **The records of a forest are balanced.** -/
theorem Node.balanced_recordsOfAll (ns : List Node) : NodeRecord.Balanced (Node.recordsOfAll 0 ns) := by
  have hpaired := Node.paired_recordsOfAll ns 0
  refine ⟨Node.level?_recordsOfAll ns 0 0, hpaired, fun i j r r' hr hr' => ⟨?_, ?_⟩⟩
  · rintro rfl
    obtain ⟨-, -, q, hq, hback, -⟩ := hpaired i r hr
    rw [Nat.sub_zero, hr'] at hq
    obtain rfl := Option.some.inj hq
    rw [hback, Nat.zero_add]
  · rintro rfl
    obtain ⟨-, -, q, hq, hback, -⟩ := hpaired j r' hr'
    rw [Nat.sub_zero, hr] at hq
    obtain rfl := Option.some.inj hq
    rw [hback, Nat.zero_add]

/-! ## Reading a forest back -/

/-- A node with more children. -/
def Node.adopt : Node → List Node → Node
  | .mk symbol offset length children, ns => .mk symbol offset length (children ++ ns)

namespace NodeRecord

/-- **A forest read from its records,** with the nodes that have begun, the innermost first, and those that lie in no
other, the latest first.  A beginning without an end is no node, and neither is what lies in it. -/
def forestFrom : List NodeRecord → List Node → List Node → List Node
  | [], _, roots => roots.reverse
  | r :: rs, begun, roots =>
    if r.opens then forestFrom rs (.mk r.symbol r.offset r.length [] :: begun) roots
    else match begun with
      | [] => forestFrom rs [] roots
      | [n] => forestFrom rs [] (n :: roots)
      | n :: parent :: begun => forestFrom rs (parent.adopt [n] :: begun) roots

theorem forestFrom_opens {r : NodeRecord} (h : r.opens = true) (rs : List NodeRecord) (begun roots : List Node) :
    forestFrom (r :: rs) begun roots = forestFrom rs (.mk r.symbol r.offset r.length [] :: begun) roots := by
  rw [forestFrom.eq_def]
  exact if_pos h

/-- **The forest that records tell of.** -/
def forest (rs : List NodeRecord) : List Node := forestFrom rs [] []

end NodeRecord

mutual

theorem Node.forestFrom_records : ∀ (n : Node) (start : Nat) (rs : List NodeRecord) (begun roots : List Node),
    NodeRecord.forestFrom (n.records start ++ rs) begun roots =
      match begun with
      | [] => NodeRecord.forestFrom rs [] (n :: roots)
      | parent :: begun => NodeRecord.forestFrom rs (parent.adopt [n] :: begun) roots
  | .mk symbol offset length children, start, rs, begun, roots => by
    rw [Node.records, List.cons_append, List.append_assoc, NodeRecord.forestFrom_opens rfl,
      Node.forestFrom_recordsOfAll children]
    dsimp only
    rw [Node.adopt, List.nil_append]
    cases begun <;> rfl

/-- **Reading the records of nodes adds the nodes,** to the innermost node that has begun or to the roots. -/
theorem Node.forestFrom_recordsOfAll : ∀ (ns : List Node) (start : Nat) (rs : List NodeRecord) (begun roots : List Node),
    NodeRecord.forestFrom (Node.recordsOfAll start ns ++ rs) begun roots =
      match begun with
      | [] => NodeRecord.forestFrom rs [] (ns.reverse ++ roots)
      | parent :: begun => NodeRecord.forestFrom rs (parent.adopt ns :: begun) roots
  | [], start, rs, begun, roots => by
    cases begun with
    | nil => rfl
    | cons parent begun =>
      obtain ⟨symbol, offset, length, children⟩ := parent
      simp only [Node.recordsOfAll, Node.adopt, List.nil_append, List.append_nil]
  | n :: ns, start, rs, begun, roots => by
    rw [Node.recordsOfAll, List.append_assoc, Node.forestFrom_records n]
    cases begun with
    | nil =>
      dsimp only
      rw [Node.forestFrom_recordsOfAll ns, List.reverse_cons, List.append_assoc]
      rfl
    | cons parent begun =>
      obtain ⟨symbol, offset, length, children⟩ := parent
      dsimp only
      rw [Node.forestFrom_recordsOfAll ns]
      simp only [Node.adopt, List.append_assoc, List.singleton_append]

end

/-- Below a node that has not ended, open operators add nothing to the roots. -/
theorem Frame.forestFrom_begun : ∀ (fs : List Frame) (start : Nat) (parent : Node) (begun roots : List Node),
    NodeRecord.forestFrom (Frame.recordsOfAll start fs) (parent :: begun) roots = roots.reverse
  | [], _, _, _, _ => rfl
  | f :: fs, start, parent, begun, roots => by
    rw [Frame.recordsOfAll, Frame.records]
    cases f.symbol with
    | none =>
      dsimp only
      rw [Node.forestFrom_recordsOfAll]
      exact Frame.forestFrom_begun fs _ _ _ _
    | some symbol =>
      dsimp only
      rw [List.cons_append, NodeRecord.forestFrom_opens rfl, Node.forestFrom_recordsOfAll]
      exact Frame.forestFrom_begun fs _ _ _ _

/-- Operators that are open add the nodes that were completed before the first that is selected. -/
theorem Frame.forestFrom_recordsOfAll : ∀ (fs : List Frame) (start : Nat) (roots : List Node),
    NodeRecord.forestFrom (Frame.recordsOfAll start fs) [] roots =
      roots.reverse ++ (fs.takeWhile fun f => f.symbol.isNone).flatMap fun f => f.newest.reverse
  | [], _, _ => by simp [Frame.recordsOfAll, NodeRecord.forestFrom]
  | f :: fs, start, roots => by
    rw [Frame.recordsOfAll, Frame.records, List.takeWhile_cons]
    cases f.symbol with
    | none =>
      simp only [Option.isNone_none, if_true]
      rw [Node.forestFrom_recordsOfAll]
      dsimp only
      rw [Frame.forestFrom_recordsOfAll fs, List.reverse_append, List.reverse_reverse, List.append_assoc, List.flatMap_cons]
    | some symbol =>
      simp only [Option.isNone_some, Bool.false_eq_true, if_false, List.flatMap_nil, List.append_nil]
      rw [List.cons_append, NodeRecord.forestFrom_opens rfl, Node.forestFrom_recordsOfAll]
      exact Frame.forestFrom_begun fs _ _ _ _

/-- **The nodes of a tree are read back from its records.** -/
theorem NodeRecord.forest_records (t : Tree) : NodeRecord.forest t.records = t.nodes := by
  rw [NodeRecord.forest, Tree.records, Node.forestFrom_recordsOfAll]
  dsimp only
  rw [List.append_nil, Frame.forestFrom_recordsOfAll, List.reverse_reverse, Tree.nodes]

/-! ## The ledger -/

/-- **A tree in its flat form,** as it is written while the match goes on. -/
structure Ledger where
  input : Array Char
  records : List NodeRecord
  /-- how many records there were when each open operator was entered, the innermost first -/
  marks : List Nat
  /-- where the nodes began that wait for their end, the innermost first -/
  begun : List Nat

namespace Ledger

/-- The ledger of no match. -/
def empty : Ledger := ⟨#[], [], [], []⟩

/-- **The watcher that writes the ledger.**  An operator that fails takes back what was written since it was entered. -/
def watch (s : Selection) : Watcher Ledger := fun l e =>
  match e with
  | .start input => ⟨input, [], [], []⟩
  | .down op offset =>
    let l' := { l with marks := l.records.length :: l.marks }
    match s.symbol? op with
    | some symbol =>
      { l' with records := l.records ++ [⟨true, symbol, offset, 0, 0⟩], begun := l.records.length :: l.begun }
    | none => l'
  | .up op p offset =>
    let l' := { l with
      marks := l.marks.tail
      begun := if (s.symbol? op).isSome then l.begun.tail else l.begun }
    if p.state = .noMatch then { l' with records := l.records.take (l.marks.headD 0) }
    else match s.symbol? op, l.begun with
      | some symbol, first :: _ =>
        let last := l.records.length
        { l' with records := l.records.modify first (fun r => { r with length := p.length, pair := last }) ++
          [⟨false, symbol, offset, p.length, first⟩] }
      | _, _ => l'

end Ledger

/-! ## A ledger and a tree -/

theorem Node.recordsOfAll_append : ∀ (ns ms : List Node) (start : Nat), Node.recordsOfAll start (ns ++ ms) =
    Node.recordsOfAll start ns ++ Node.recordsOfAll (start + (Node.recordsOfAll start ns).length) ms
  | [], _, _ => rfl
  | n :: ns, ms, start => by
    rw [List.cons_append, Node.recordsOfAll, Node.recordsOfAll_append ns, Node.recordsOfAll]
    simp only [List.append_assoc, List.length_append, Nat.add_assoc]

theorem Frame.recordsOfAll_append : ∀ (fs gs : List Frame) (start : Nat), Frame.recordsOfAll start (fs ++ gs) =
    Frame.recordsOfAll start fs ++ Frame.recordsOfAll (start + (Frame.recordsOfAll start fs).length) gs
  | [], _, _ => rfl
  | f :: fs, gs, start => by
    rw [List.cons_append, Frame.recordsOfAll, Frame.recordsOfAll_append fs, Frame.recordsOfAll]
    simp only [List.append_assoc, List.length_append, Nat.add_assoc]

/-- The records of nodes that are completed below an open operator come after its own. -/
theorem Frame.records_completed (f : Frame) (ns : List Node) (start : Nat) :
    ({ f with newest := ns ++ f.newest } : Frame).records start =
      f.records start ++ Node.recordsOfAll (start + (f.records start).length) ns.reverse := by
  unfold Frame.records
  cases f.symbol with
  | none =>
    dsimp only
    rw [List.reverse_append, Node.recordsOfAll_append]
  | some symbol =>
    dsimp only
    rw [List.reverse_append, Node.recordsOfAll_append, List.cons_append, List.length_cons, ← Nat.add_assoc start,
      Nat.add_right_comm start _ 1]

namespace Tree

/-- A tree with one open operator more. -/
def push (t : Tree) (f : Frame) : Tree := { t with frames := f :: t.frames }

/-- **The records of the innermost operator come last.** -/
theorem records_push (t : Tree) (f : Frame) : (t.push f).records = t.records ++ f.records t.records.length := by
  simp only [records, opened, push, List.reverse_cons, Frame.recordsOfAll_append, List.length_append, List.append_assoc]
  rw [Frame.recordsOfAll, Frame.recordsOfAll, List.append_nil]

theorem add_push (t : Tree) (f : Frame) (ns : List Node) :
    (t.push f).add ns = t.push { f with newest := ns ++ f.newest } := rfl

/-- **The records of nodes that are added come last.** -/
theorem records_add (t : Tree) (ns : List Node) :
    (t.add ns).records = t.records ++ Node.recordsOfAll t.records.length ns.reverse := by
  obtain ⟨input, newest, frames⟩ := t
  cases frames with
  | nil =>
    simp only [add, records, opened, List.reverse_nil, Frame.recordsOfAll, List.append_nil, List.reverse_append,
      Node.recordsOfAll_append, Nat.zero_add]
  | cons f fs =>
    change (push ⟨input, newest, fs⟩ { f with newest := ns ++ f.newest }).records =
      (push ⟨input, newest, fs⟩ f).records ++ Node.recordsOfAll (push ⟨input, newest, fs⟩ f).records.length ns.reverse
    rw [records_push, records_push, Frame.records_completed, List.append_assoc, List.length_append]

/-- How many records there were when each open operator was entered, and whether it is selected. -/
def entries (t : Tree) : List (Nat × Bool) := go t.newest t.frames
where
  go (newest : List Node) : List Frame → List (Nat × Bool)
    | [] => []
    | f :: fs => ((⟨#[], newest, fs⟩ : Tree).records.length, f.symbol.isSome) :: go newest fs

theorem entries_push (t : Tree) (f : Frame) :
    (t.push f).entries = (t.records.length, f.symbol.isSome) :: t.entries := rfl

theorem entries_add (t : Tree) (ns : List Node) : (t.add ns).entries = t.entries := by
  obtain ⟨input, newest, frames⟩ := t
  cases frames <;> rfl

end Tree

theorem modify_append_cons {α : Type} (f : α → α) (y : α) (ys : List α) :
    ∀ xs : List α, (xs ++ y :: ys).modify xs.length f = xs ++ f y :: ys
  | [] => rfl
  | x :: xs => by rw [List.cons_append, List.length_cons, List.modify_succ_cons, modify_append_cons f y ys xs]; rfl

namespace Ledger

/-- **A ledger mirrors a tree:** it has its records, and knows where its open operators were entered. -/
structure Mirrors (l : Ledger) (t : Tree) : Prop where
  input : l.input = t.input
  records : l.records = t.records
  marks : l.marks = t.entries.map Prod.fst
  begun : l.begun = (t.entries.filter Prod.snd).map Prod.fst

variable {s : Selection} {l : Ledger} {t : Tree}

theorem mirrors_empty : empty.Mirrors .empty := ⟨rfl, rfl, rfl, rfl⟩

theorem mirrors_start (l : Ledger) (t : Tree) (input : Array Char) :
    (watch s l (.start input)).Mirrors (Tree.watch s t (.start input)) := ⟨rfl, rfl, rfl, rfl⟩

/-- **An operator is entered.** -/
theorem Mirrors.down (h : l.Mirrors t) (op : Opcode) (o : Nat) :
    (watch s l (.down op o)).Mirrors (t.push ⟨s.symbol? op, o, []⟩) := by
  refine ⟨?_, ?_, ?_, ?_⟩
  · simp only [watch]
    split <;> exact h.input
  · rw [Tree.records_push, ← h.records]
    simp only [watch, Frame.records]
    split <;> simp [*, Node.recordsOfAll]
  · rw [Tree.entries_push, List.map_cons, ← h.records, ← h.marks]
    simp only [watch]
    split <;> rfl
  · rw [Tree.entries_push, List.filter_cons, ← h.records]
    simp only [watch]
    split <;> simp [*, h.begun]

/-- **An operator is left:** the innermost, with nodes below it. -/
theorem Mirrors.up {f : Frame} {op : Opcode} {o : Nat} (h : l.Mirrors (t.push f)) (hs : f.symbol = s.symbol? op)
    (ho : f.offset = o) (p : Phrase) : (watch s l (.up op p o)).Mirrors (t.add (Tree.completed f p)) := by
  have hrecords : l.records = t.records ++ f.records t.records.length := by rw [h.records, Tree.records_push]
  have hmarks : l.marks = t.records.length :: t.entries.map Prod.fst := h.marks
  have hbegun := h.begun
  rw [Tree.entries_push, List.filter_cons] at hbegun
  have hinput : (t.add (Tree.completed f p)).input = t.input := by
    unfold Tree.add
    split <;> rfl
  have hin : l.input = (t.add (Tree.completed f p)).input := hinput ▸ h.input
  -- what is left of the marks and of the beginnings does not depend on how the operator ended
  have hrest : (if (s.symbol? op).isSome then l.begun.tail else l.begun) = (t.entries.filter Prod.snd).map Prod.fst := by
    rw [hbegun, ← hs]
    split <;> rfl
  unfold Tree.completed at hin ⊢
  simp only [watch, hmarks, hrest]
  by_cases hp : p.state = .noMatch
  · simp only [hp, if_true] at hin ⊢
    refine ⟨hin, ?_, ?_, ?_⟩
    · rw [Tree.records_add, hrecords]
      simp [Node.recordsOfAll]
    all_goals simp only [Tree.entries_add, List.tail_cons]
  simp only [hp, if_false] at hin ⊢
  rw [← hs]
  cases hf : f.symbol with
  | none =>
    rw [hf] at hin
    refine ⟨hin, ?_, ?_, ?_⟩
    · rw [Tree.records_add, hrecords, Frame.records, hf]
    all_goals simp only [Tree.entries_add, List.tail_cons]
  | some symbol =>
    rw [hf] at hin hbegun
    simp only [Option.isSome_some, if_true, List.map_cons] at hbegun
    simp only [hbegun]
    refine ⟨hin, ?_, ?_, ?_⟩
    · rw [Tree.records_add, hrecords, Frame.records, hf]
      simp only [List.reverse_singleton, Node.recordsOfAll, Node.records, List.append_nil]
      rw [modify_append_cons, List.append_assoc, List.cons_append, ho, List.length_append, List.length_cons,
        Nat.add_assoc _ 1, Nat.add_comm 1]
    all_goals simp only [Tree.entries_add, List.tail_cons]

end Ledger

end SignIn
