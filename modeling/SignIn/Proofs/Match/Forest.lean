import SignIn.Proofs.Match.Records
import SignIn.Proofs.Match.Watchers
/-!
# The tree of a match is the match

A match tells the events of a tree (`Told`), and those who watch for the nodes of a selection keep a forest of it: what
failed is deleted with all below it, and an operator that is not selected is replaced by what is below it
(`Told.nodes`).  The two watchers that keep it, the tree and the ledger, come to this forest and to its records on every
match (`trees_describe`).

Where callbacks of rules only reject, what is below a node is laid within it, one node behind the other (`Node.Laid`).
-/
namespace SignIn

variable {s : Selection}

/-! ## The forest of what was told -/

namespace Told

mutual

/-- **The nodes of a tree that was told:** none if it failed, one if its operator is a reference to a rule or a terminal
that is selected, else those below it. -/
def nodes (s : Selection) : Told → List Node
  | .mk op o p below =>
    if p.state = .noMatch then []
    else match op with
      | .rnm id =>
        if s.has (.rule id) then [.mk (.rule id) o p.length (nodesOfAll s below)] else nodesOfAll s below
      | .udt id =>
        if s.has (.udt id) then [.mk (.udt id) o p.length (nodesOfAll s below)] else nodesOfAll s below
      | .alt _ | .cat _ | .rep _ _ _ | .trg _ _ | .tbs _ | .tls _ | .and _ | .not _ => nodesOfAll s below

/-- The nodes of trees one after the other. -/
def nodesOfAll (s : Selection) : List Told → List Node
  | [] => []
  | t :: ts => t.nodes s ++ nodesOfAll s ts

end

/-- An operator is selected as the symbol that it refers to. -/
theorem nodes_mk (s : Selection) (op : Opcode) (o : Nat) (p : Phrase) (below : List Told) :
    (Told.mk op o p below).nodes s = if p.state = .noMatch then []
      else match s.symbol? op with
        | some symbol => [.mk symbol o p.length (nodesOfAll s below)]
        | none => nodesOfAll s below := by
  cases op with
  | rnm id => cases hhas : s.has (.rule id) <;> simp [nodes, Selection.symbol?, Opcode.symbol?, Option.filter_some, hhas]
  | udt id => cases hhas : s.has (.udt id) <;> simp [nodes, Selection.symbol?, Opcode.symbol?, Option.filter_some, hhas]
  | _ =>
    rw [nodes]
    rfl

end Told

namespace Tree

theorem add_nil (t : Tree) : t.add [] = t := by
  obtain ⟨input, newest, frames⟩ := t
  cases frames <;> rfl

theorem add_add (t : Tree) (ns ms : List Node) : (t.add ns).add ms = t.add (ms ++ ns) := by
  obtain ⟨input, newest, frames⟩ := t
  cases frames <;> simp only [add, List.append_assoc]

/-- What an operator leaves behind are the nodes of its tree. -/
theorem completed_nodes (s : Selection) (op : Opcode) (o : Nat) (p : Phrase) (below : List Told) :
    completed ⟨s.symbol? op, o, (Told.nodesOfAll s below).reverse⟩ p = ((Told.mk op o p below).nodes s).reverse := by
  rw [completed, Told.nodes_mk]
  split
  · rfl
  · cases s.symbol? op <;> simp

mutual

theorem foldl_events (s : Selection) : ∀ (u : Told) (t : Tree), u.events.foldl (watch s) t = t.add (u.nodes s).reverse
  | .mk op o p below, t => by
    rw [Told.events, List.foldl_cons, List.foldl_append, foldl_eventsOfAll s below]
    show t.add (completed ⟨s.symbol? op, o, _ ++ []⟩ p) = _
    rw [List.append_nil, completed_nodes]

/-- **The events of trees add their nodes.** -/
theorem foldl_eventsOfAll (s : Selection) :
    ∀ (us : List Told) (t : Tree), (Told.eventsOfAll us).foldl (watch s) t = t.add (Told.nodesOfAll s us).reverse
  | [], t => (add_nil t).symm
  | u :: us, t => by
    rw [Told.eventsOfAll, List.foldl_append, foldl_events s u, foldl_eventsOfAll s us, add_add, Told.nodesOfAll,
      List.reverse_append]

end

end Tree

namespace Ledger

mutual

theorem mirrors_events (s : Selection) : ∀ (u : Told) {l : Ledger} {t : Tree}, l.Mirrors t →
    (u.events.foldl (watch s) l).Mirrors (u.events.foldl (Tree.watch s) t)
  | .mk op o p below, l, t, h => by
    have hbelow := mirrors_eventsOfAll s below (h.down (s := s) op o)
    rw [Tree.foldl_eventsOfAll, Tree.add_push, List.append_nil] at hbelow
    rw [Tree.foldl_events, ← Tree.completed_nodes, Told.events, List.foldl_cons, List.foldl_append]
    exact hbelow.up rfl rfl p

/-- **A ledger mirrors a tree through all events of trees.** -/
theorem mirrors_eventsOfAll (s : Selection) : ∀ (us : List Told) {l : Ledger} {t : Tree}, l.Mirrors t →
    ((Told.eventsOfAll us).foldl (watch s) l).Mirrors ((Told.eventsOfAll us).foldl (Tree.watch s) t)
  | [], _, _, h => h
  | u :: us, l, t, h => by
    rw [Told.eventsOfAll, List.foldl_append, List.foldl_append]
    exact mirrors_eventsOfAll s us (mirrors_events s u h)

end

/-- **And through events that were cut off.** -/
theorem mirrors_cut {es : List Event} (hcut : Told.Cut es) {l : Ledger} {t : Tree} (h : l.Mirrors t) :
    (es.foldl (watch s) l).Mirrors (es.foldl (Tree.watch s) t) := by
  induction hcut generalizing l t with
  | between ts => exact mirrors_eventsOfAll s ts h
  | within ts op o _ ih =>
    rw [List.foldl_append, List.foldl_append]
    exact ih ((mirrors_eventsOfAll s ts h).down op o)

end Ledger

/-! ## Smaller selections -/

mutual

/-- **The nodes of a selection:** one that is not selected is replaced by what is below it. -/
def Node.contract (s : Selection) : Node → List Node
  | .mk symbol o length children =>
    if s.has symbol then [.mk symbol o length (Node.contractAll s children)] else Node.contractAll s children

/-- The nodes of a selection in nodes one after the other. -/
def Node.contractAll (s : Selection) : List Node → List Node
  | [] => []
  | n :: ns => n.contract s ++ Node.contractAll s ns

end

theorem Node.contractAll_append (s : Selection) :
    ∀ ns ms : List Node, Node.contractAll s (ns ++ ms) = Node.contractAll s ns ++ Node.contractAll s ms
  | [], _ => rfl
  | n :: ns, ms => by
    rw [List.cons_append, Node.contractAll, Node.contractAll, Node.contractAll_append s ns, List.append_assoc]

namespace Told

variable {D : Type} {m : Matcher D}

mutual

theorem contract_nodes (s : Selection) : ∀ {u : Told}, u.Sound m →
    Node.contractAll s (u.nodes (.everything m.grammar)) = u.nodes s
  | .mk op o p below, .mk here hbelow => by
    have hall := contract_nodesOfAll s hbelow
    have heverything : (Selection.everything m.grammar).symbol? op = op.symbol? := by
      rw [Selection.symbol?]
      cases hsymbol : op.symbol? with
      | none => rfl
      | some symbol => rw [Option.filter_some, here.known symbol hsymbol, if_pos rfl]
    rw [nodes_mk, nodes_mk, heverything, Selection.symbol?]
    split
    · rfl
    · cases op.symbol? with
      | none => exact hall
      | some symbol =>
        simp only [Node.contractAll, Node.contract, hall, List.append_nil, Option.filter_some]
        cases s.has symbol <;> rfl

/-- **The forest of a selection is the contraction of that of everything.** -/
theorem contract_nodesOfAll (s : Selection) : ∀ {us : List Told}, (∀ u ∈ us, u.Sound m) →
    Node.contractAll s (nodesOfAll (.everything m.grammar) us) = nodesOfAll s us
  | [], _ => rfl
  | u :: us, h => by
    rw [List.forall_mem_cons] at h
    rw [nodesOfAll, Node.contractAll_append, contract_nodes s h.1, contract_nodesOfAll s h.2, nodesOfAll]

end

/-! ## Where nodes lie -/

end Told

/-- **Nodes laid in a stretch of the input,** one behind the other, and below each its children laid in its own. -/
inductive Node.Laid : Nat → Nat → List Node → Prop
  | nil {a b : Nat} (le : a ≤ b) : Node.Laid a b []
  | cons {a b o length : Nat} {symbol : Symbol} {children ns : List Node} (le : a ≤ o)
    (inner : Node.Laid o (o + length) children) (rest : Node.Laid (o + length) b ns) :
    Node.Laid a b (.mk symbol o length children :: ns)

theorem Node.Laid.append {a b c : Nat} {ns ms : List Node} (h : Node.Laid a b ns) (h' : Node.Laid b c ms) :
    Node.Laid a c (ns ++ ms) := by
  induction h with
  | nil le =>
    cases h' with
    | nil le' => exact .nil (Nat.le_trans le le')
    | cons le' inner rest => exact .cons (Nat.le_trans le le') inner rest
  | cons le inner rest _ ih => exact .cons le inner (ih h')

namespace Told

variable {D : Type} {m : Matcher D}

theorem nodes_of_failed (s : Selection) : ∀ {u : Told}, u.phrase.state = .noMatch → u.nodes s = []
  | .mk _ _ _ _, hs => by
    rw [nodes_mk]
    exact if_pos hs

mutual

theorem laid_nodes (s : Selection) (hm : m.OnlyRejects) : ∀ {u : Told}, u.Sound m → u.phrase.state ≠ .noMatch →
    Node.Laid u.offset (u.offset + u.phrase.length) (u.nodes s)
  | .mk op o p below, .mk here hbelow, hp => by
    have hinner := laid_nodesOfAll s hm hbelow (here.laid hm hp)
    rw [nodes_mk, if_neg (show p.state ≠ .noMatch from hp)]
    cases s.symbol? op with
    | none => exact hinner
    | some symbol => exact .cons (Nat.le_refl o) hinner (.nil (Nat.le_refl _))

/-- **Where callbacks only reject, nodes are laid as their operators are.** -/
theorem laid_nodesOfAll (s : Selection) (hm : m.OnlyRejects) : ∀ {us : List Told}, (∀ u ∈ us, u.Sound m) →
    ∀ {a b : Nat}, Laid a b us → Node.Laid a b (nodesOfAll s us)
  | [], _, _, _, .nil le => .nil le
  | u :: us, h, a, b, hlaid => by
    rw [List.forall_mem_cons] at h
    rw [nodesOfAll]
    cases hlaid with
    | failed hs rest =>
      rw [nodes_of_failed s hs]
      exact laid_nodesOfAll s hm h.2 rest
    | cons le rest =>
      have hu : Node.Laid u.offset (u.offset + u.phrase.length) (u.nodes s) := by
        by_cases hs : u.phrase.state = .noMatch
        · rw [nodes_of_failed s hs]
          exact .nil (Nat.le_add_right _ _)
        · exact laid_nodes s hm h.1 hs
      exact (Node.Laid.nil le).append (hu.append (laid_nodesOfAll s hm h.2 rest))

end

end Told

/-! ## The match -/

namespace Matcher

variable {D : Type} {m : Matcher D}

/-- **However a match comes out,** its events are its start and those of trees up to some point; or it has told of nothing,
if it was given up. -/
theorem cut_of_parseFrom (hg : m.grammar.WellFormed) {depth : Nat} {id : RuleId} (hid : id.index < m.grammar.rules.size)
    {input : Array Char} {data : D} : (m.parseFrom .record depth id input data []).seen.reverse = [] ∨
      ∃ es, Told.Cut es ∧ (m.parseFrom .record depth id input data []).seen.reverse = .start input :: es := by
  have htells := Engine.execute_tells (s := ⟨m, .record, input⟩) hg depth (Grammar.code_rnm hid) 0 (.rnm id) 0
    (firstRun .record input data []) rfl (Nat.zero_le _)
  have hevents : ∀ {r : Run D (List Event)} {es : List Event}, r.seen = es.foldl Watcher.record [.start input] →
      r.seen.reverse = .start input :: es := by
    intro r es hseen
    rw [hseen, Watcher.foldl_record, List.reverse_append, List.reverse_reverse]
    rfl
  simp only [parseFrom]
  cases hout : Engine.execute ⟨m, .record, input⟩ depth #[.rnm id] 0 0 (firstRun .record input data []) with
  | ended p r =>
    rw [hout] at htells
    obtain ⟨-, below, -, htells⟩ := htells
    refine .inr ⟨_, ?_, hevents htells.seen⟩
    rw [← Told.eventsOfAll_singleton]
    exact .between _
  | broken e r =>
    rw [hout] at htells
    obtain ⟨es, hcut, hseen⟩ := htells
    exact .inr ⟨es, hcut, hevents hseen⟩
  | stuck => exact .inl rfl
  | starved => exact .inl rfl

end Matcher

/-- **What the trees of a selection describe.**  The ledger has the records of the tree; the nodes are read back from
them; and they are the beginning of balanced brackets, however the match came out.  If it came to its end, the nodes are
those of what was told. -/
structure Selection.Describes {D : Type} (s : Selection) (m : Matcher D) (start : Option RuleId) (input : Array Char)
    (run : ∀ {σ : Type}, Watcher σ → σ → Parsed D σ) : Prop where
  ledger : ∀ {l : Ledger} {t : Tree}, l.Mirrors t →
    (run (Ledger.watch s) l).seen.records = (run (Tree.watch s) t).seen.records
  forest : ∀ t, NodeRecord.forest (run (Tree.watch s) t).seen.records = (run (Tree.watch s) t).seen.nodes
  begun : ∀ t, NodeRecord.Begun (run (Tree.watch s) t).seen.records
  level : ∀ t, NodeRecord.level? 0 (run (Tree.watch s) t).seen.records ≠ none
  ended : ∀ t {report}, (run (Tree.watch s) t).result = .ok report →
    let tree := (run (Tree.watch s) t).seen
    ∃ id p below, start = some id ∧ (Told.mk (.rnm id) 0 p below).Sound m ∧
      report.state = p.state ∧ report.matched = p.length ∧
      (run .record []).seen.reverse = .start input :: (Told.mk (.rnm id) 0 p below).events ∧
      tree.nodes = (Told.mk (.rnm id) 0 p below).nodes s ∧ tree.records = Node.recordsOfAll 0 tree.nodes ∧
      NodeRecord.Balanced tree.records ∧
      (report.state = .noMatch → tree.nodes = [] ∧ tree.records = []) ∧
      tree.nodes = Node.contractAll s (run (Tree.watch (.everything m.grammar)) t).seen.nodes ∧
      (m.OnlyRejects → Node.Laid 0 report.matched tree.nodes)

/-- **Where watchers are indifferent and matches tell trees,** the trees of a selection describe them. -/
theorem Selection.describes_of {D : Type} {m : Matcher D} {start : Option RuleId} {input : Array Char}
    {run : ∀ {σ : Type}, Watcher σ → σ → Parsed D σ} (s : Selection) (hrun : Indifferent run)
    (hcut : (run .record []).seen.reverse = [] ∨
      ∃ es, Told.Cut es ∧ (run .record []).seen.reverse = .start input :: es)
    (hended : ∀ report, (run .record []).result = .ok report →
      ∃ id, start = some id ∧ m.TellsTree id input report (run .record []).seen.reverse) :
    s.Describes m start input run where
  ledger {l t} h := by
    rw [hrun.seen, hrun.seen (Tree.watch s)]
    rcases hcut with hnone | ⟨es, hcut, hes⟩
    · rw [hnone]
      exact h.records
    · rw [hes]
      exact (Ledger.mirrors_cut hcut (Ledger.mirrors_start l t input)).records
  forest t := NodeRecord.forest_records _
  begun t := Tree.begun_records _
  level t hnone := by
    obtain ⟨k, hk⟩ := Tree.level?_records (run (Tree.watch s) t).seen
    rw [hnone] at hk
    cases hk
  ended t {report} h := by
    rw [hrun.result _ .record _ []] at h
    obtain ⟨id, hid, p, below, hsound, hstate, hmatched, hevents⟩ := hended report h
    have htree : ∀ s : Selection, (run (Tree.watch s) t).seen =
        ⟨input, ((Told.mk (.rnm id) 0 p below).nodes s).reverse, []⟩ := by
      intro s
      rw [hrun.seen, hevents, List.foldl_cons, Tree.foldl_events]
      simp [Tree.watch, Tree.add]
    have hnodes : ∀ s : Selection, (run (Tree.watch s) t).seen.nodes = (Told.mk (.rnm id) 0 p below).nodes s := by
      intro s
      rw [htree]
      simp [Tree.nodes, Tree.opened]
    have hrecords : (run (Tree.watch s) t).seen.records = Node.recordsOfAll 0 (run (Tree.watch s) t).seen.nodes := by
      rw [hnodes, htree]
      simp [Tree.records, Tree.opened, Frame.recordsOfAll]
    refine ⟨id, p, below, hid, hsound, hstate, hmatched, hevents, hnodes s, hrecords, ?_, fun hfail => ?_, ?_,
      fun hm => ?_⟩
    · rw [hrecords]
      exact Node.balanced_recordsOfAll _
    · have hnone : (run (Tree.watch s) t).seen.nodes = [] := by
        rw [hnodes]
        exact Told.nodes_of_failed s (hstate ▸ hfail)
      exact ⟨hnone, by rw [hrecords, hnone]; rfl⟩
    · rw [hnodes, hnodes]
      exact (Told.contract_nodes s hsound).symm
    · rw [hnodes, hmatched]
      by_cases hs : p.state = .noMatch
      · rw [Told.nodes_of_failed s (u := .mk (.rnm id) 0 p below) hs]
        exact .nil (Nat.zero_le _)
      · have := Told.laid_nodes s hm hsound hs
        rwa [Told.offset, Told.phrase, Nat.zero_add] at this

/-- **The tree of a match is the match.**  For every selection, and however deep the match may go: the records are the
beginning of balanced brackets, and if the match came to its end they are balanced, and the nodes are those of the
operators that succeeded, all others contracted, laid in the input one within or behind the other if the rules' callbacks
only reject. -/
theorem trees_describe {D : Type} {rules : List (Text × List Opcode)} {udts : List (Text × Bool)} {m : Matcher D}
    (htables : Grammar.ofTables rules udts = .ok m.grammar) (s : Selection) (start : Text) (input : Array Char) (data : D) :
    s.Describes m (m.grammar.ruleId? start) input (fun f x => m.parseWith f start input data x) ∧
    ∀ id, m.grammar.ruleId? start = some id → ∀ depth,
      s.Describes m (some id) input (fun f x => m.parseFrom f depth id input data x) := by
  have hg := Grammar.wellFormed_ofTables htables
  refine ⟨s.describes_of (indifferent_of_mirrors fun hP _ _ hxy => Matcher.parseWith_mirrors hg hP start input data hxy) ?_
    fun report h => ?_, fun id hid depth => ?_⟩
  · unfold Matcher.parseWith
    split
    · exact .inl rfl
    rename_i id hid
    split
    · exact .inl rfl
    exact Matcher.cut_of_parseFrom hg (Grammar.ruleId?_lt hid)
  · obtain ⟨id, hid, -, heq⟩ := Matcher.parseWith_eq_ok h
    rw [heq] at h ⊢
    exact ⟨id, hid, Matcher.tellsTree_of_parseFrom hg (Grammar.ruleId?_lt hid) h⟩
  · have hlt := Grammar.ruleId?_lt hid
    exact s.describes_of (indifferent_of_mirrors fun hP _ _ hxy => Matcher.parseFrom_mirrors hg hP depth hlt input data hxy)
      (Matcher.cut_of_parseFrom hg hlt) fun report h => ⟨id, rfl, Matcher.tellsTree_of_parseFrom hg hlt h⟩

theorem onlyRejects_peek : peekMatcher.OnlyRejects := by
  intro id f hf p input o d
  have hmem : some f ∈ peekMatcher.onRule := by
    rw [Matcher.ruleCallback?, Option.join_eq_some_iff] at hf
    exact Array.mem_of_getElem? hf
  obtain rfl : f = fun p _ _ d => (p, d + 1) := by simpa [peekMatcher] using hmem
  exact .inl rfl

theorem trees_describe_peek :
    Grammar.ofTables peekTables.1 peekTables.2 = .ok peekMatcher.grammar ∧ peekMatcher.OnlyRejects ∧
    let tree := (peekMatcher.parseWith (Tree.watch (.everything peekMatcher.grammar)) "peek" #['b'] 0 .empty).seen
    let ledger := (peekMatcher.parseWith (Ledger.watch (.everything peekMatcher.grammar)) "peek" #['b'] 0 .empty).seen
    ledger.records = tree.records ∧ NodeRecord.Balanced tree.records ∧ Node.Laid 0 1 tree.nodes :=
  have hg : Grammar.ofTables peekTables.1 peekTables.2 = .ok peekMatcher.grammar := rfl
  have h := (trees_describe hg (.everything peekMatcher.grammar) "peek" #['b'] 0).1
  have hok : (peekMatcher.parseWith (Tree.watch (.everything peekMatcher.grammar)) "peek" #['b'] 0 .empty).result =
    .ok ⟨true, .matched, 1, 1, 1, 4, 5⟩ := rfl
  have ⟨_, _, _, _, _, _, _, _, _, _, hbalanced, _, _, hlaid⟩ := h.ended .empty hok
  ⟨hg, onlyRejects_peek, h.ledger Ledger.mirrors_empty, hbalanced, hlaid onlyRejects_peek⟩

end SignIn
