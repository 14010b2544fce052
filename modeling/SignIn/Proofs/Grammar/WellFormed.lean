import SignIn.Proofs.Grammar.Names
/-!
# What accepted tables satisfy

`Grammar.ofTables` looks for faults; what it leaves over is `Grammar.WellFormed`: every rule has a root, every
opcode refers only to what there is, and its children stand after it in its own rule.  The engine's safety rests
on nothing else.
-/
namespace SignIn

/-- **An opcode at an index refers only to what there is:** to later opcodes of its rule, and to rules and
terminals of the grammar. -/
structure Opcode.Within (g : Grammar) (length i : Nat) (op : Opcode) : Prop where
  children : ∀ c ∈ op.children, i < c ∧ c < length
  rule : ∀ id, op = .rnm id → id.index < g.rules.size
  udt : ∀ id, op = .udt id → id.index < g.udts.size

/-- **The opcodes of a rule:** there is a root, and each refers only to what there is. -/
structure Grammar.Code (g : Grammar) (ops : Array Opcode) : Prop where
  root : 0 < ops.size
  within : ∀ i (op : Opcode), ops[i]? = some op → op.Within g ops.size i

/-- **Every rule of the grammar has opcodes that refer only to what there is.** -/
def Grammar.WellFormed (g : Grammar) : Prop :=
  ∀ (id : Nat) (rule : Rule), g.rules[id]? = some rule → g.Code rule.opcodes

theorem Opcode.children_lowered (op : Opcode) : op.lowered.children = op.children := by
  cases op <;> rfl

/-- Lower-casing literals changes no reference. -/
theorem Opcode.Within.lowered {g : Grammar} {length i : Nat} {op : Opcode} (h : op.Within g length i) :
    op.lowered.Within g length i := by
  refine ⟨fun c hc => h.children c (by rwa [children_lowered] at hc), fun id hid => h.rule id ?_,
    fun id hid => h.udt id ?_⟩
  all_goals cases op <;> first | exact hid | cases hid

/-- The root of a match, a reference to a rule that exists. -/
theorem Grammar.code_rnm {g : Grammar} {id : RuleId} (h : id.index < g.rules.size) : g.Code #[.rnm id] := by
  refine ⟨Nat.one_pos, fun i op hop => ?_⟩
  obtain ⟨hi, rfl⟩ := Array.getElem?_eq_some_iff.1 hop
  have : i = 0 := by simpa using hi
  subst this
  exact ⟨fun c hc => by simp [Opcode.children] at hc, fun _ hid => by cases hid; exact h, fun _ hid => by cases hid⟩

/-- **An opcode without a fault refers only to what there is.** -/
theorem Opcode.within_of_fault?_eq_none {g : Grammar} {name : Text} {length i : Nat} {op : Opcode}
    (h : op.fault? name g.rules.size g.udts.size length i = none) : op.Within g length i := by
  unfold fault? at h
  split at h
  · cases h
  rename_i hc
  refine ⟨fun c hm => ?_, fun id hid => ?_, fun id hid => ?_⟩
  · have := List.find?_eq_none.1 hc c hm
    simp only [Bool.or_eq_true, decide_eq_true_eq, not_or, Nat.not_le] at this
    exact this
  · subst hid
    simpa [badOperand?] using h
  · subst hid
    simpa [badOperand?] using h

/-- An opcode of a rule without a fault is a raw one without a fault. -/
theorem Rule.opcode_ofTable {ruleCount udtCount i : Nat} {rule : Text × List Opcode} {op : Opcode}
    (h : ruleFault? ruleCount udtCount rule = none) (hop : (Rule.ofTable rule).opcodes[i]? = some op) :
    ∃ raw : Opcode, raw.fault? rule.1 ruleCount udtCount rule.2.length i = none ∧ op = raw.lowered := by
  unfold ruleFault? at h
  split at h
  · cases h
  simp only [Rule.ofTable, List.getElem?_toArray, List.getElem?_map, Option.map_eq_some_iff] at hop
  obtain ⟨raw, hi, rfl⟩ := hop
  have hm : (raw, i) ∈ rule.2.zipIdx := by
    rw [List.mem_zipIdx_iff_getElem?]
    exact hi
  exact ⟨raw, List.findSome?_eq_none_iff.1 h _ hm, rfl⟩

/-- **A rule without a fault has well-formed opcodes.** -/
theorem Rule.code_ofTable {g : Grammar} {rule : Text × List Opcode}
    (h : ruleFault? g.rules.size g.udts.size rule = none) : g.Code (Rule.ofTable rule).opcodes := by
  have hlen : (Rule.ofTable rule).opcodes.size = rule.2.length := by simp [Rule.ofTable]
  refine ⟨?_, fun i op hop => ?_⟩
  · have hne : ¬ rule.2.isEmpty = true := fun he => by simp [ruleFault?, he] at h
    rw [hlen]
    exact List.length_pos_iff.2 (by simpa using hne)
  · obtain ⟨raw, hraw, rfl⟩ := Rule.opcode_ofTable h hop
    rw [hlen]
    exact (Opcode.within_of_fault?_eq_none hraw).lowered

/-- The parts of accepted tables. -/
theorem Grammar.ofTables_eq_ok {rules : List (Text × List Opcode)} {udts : List (Text × Bool)} {g : Grammar}
    (h : Grammar.ofTables rules udts = .ok g) :
    tablesFault? rules udts = none ∧ g.rules = (rules.map Rule.ofTable).toArray ∧
      g.udts = (udts.map fun u => (⟨u.1, u.2⟩ : Udt)).toArray := by
  unfold ofTables at h
  split at h
  · cases h
  · rename_i hf
    cases h
    exact ⟨hf, rfl, rfl⟩

/-- **The names of accepted tables are distinct,** rules and terminals together. -/
theorem Grammar.distinct_ofTables {rules : List (Text × List Opcode)} {udts : List (Text × Bool)} {g : Grammar}
    (h : Grammar.ofTables rules udts = .ok g) :
    ((g.rules.toList.map Rule.name ++ g.udts.toList.map Udt.name).map foldCase).Nodup := by
  obtain ⟨hf, hr, hu⟩ := ofTables_eq_ok h
  unfold tablesFault? at hf
  split at hf
  · cases hf
  rename_i hnone
  rw [hr, hu]
  simpa [Rule.ofTable, Function.comp_def] using (firstRepeated_eq_none.1 hnone).2

/-- A rule of accepted tables is a raw one without a fault. -/
theorem Grammar.rule_ofTables {rules : List (Text × List Opcode)} {udts : List (Text × Bool)} {g : Grammar}
    (h : Grammar.ofTables rules udts = .ok g) {id : Nat} {rule : Rule} (hid : g.rules[id]? = some rule) :
    ∃ raw, ruleFault? g.rules.size g.udts.size raw = none ∧ rule = Rule.ofTable raw := by
  obtain ⟨hf, hr, hu⟩ := ofTables_eq_ok h
  have hnr : g.rules.size = rules.length := by simp [hr]
  have hnu : g.udts.size = udts.length := by simp [hu]
  unfold tablesFault? at hf
  split at hf
  · cases hf
  simp only [hr, List.getElem?_toArray, List.getElem?_map, Option.map_eq_some_iff] at hid
  obtain ⟨raw, hraw, rfl⟩ := hid
  have := List.findSome?_eq_none_iff.1 hf raw (List.mem_of_getElem? hraw)
  rw [← hnr, ← hnu] at this
  exact ⟨raw, this, rfl⟩

/-- **Accepted tables are well-formed.** -/
theorem Grammar.wellFormed_ofTables {rules : List (Text × List Opcode)} {udts : List (Text × Bool)} {g : Grammar}
    (h : Grammar.ofTables rules udts = .ok g) : g.WellFormed := by
  intro id rule hid
  obtain ⟨raw, hraw, rfl⟩ := rule_ofTables h hid
  exact Rule.code_ofTable hraw

/-! ## Operands that are not references -/

/-- **The operands of an opcode that are not references make sense:** an exact literal has characters, and the bounds of a
repetition are in order. -/
structure Opcode.Proper (op : Opcode) : Prop where
  literal : ∀ t, op = .tbs t → t ≠ []
  bounds : ∀ min max c, op = .rep min (some max) c → min ≤ max

/-- **Every opcode of the grammar has operands that make sense.** -/
def Grammar.Proper (g : Grammar) : Prop :=
  ∀ (id : Nat) (rule : Rule), g.rules[id]? = some rule → ∀ (i : Nat) (op : Opcode), rule.opcodes[i]? = some op → op.Proper

/-- An opcode without a fault has operands that make sense, its literal in lower case too. -/
theorem Opcode.proper_of_fault?_eq_none {name : Text} {ruleCount udtCount length i : Nat} {op : Opcode}
    (h : op.fault? name ruleCount udtCount length i = none) : op.lowered.Proper := by
  unfold fault? at h
  split at h
  · cases h
  refine ⟨fun t ht => ?_, fun min max c hc => ?_⟩
  · cases op <;> simp only [lowered, reduceCtorEq] at ht
    obtain rfl := Opcode.tbs.inj ht
    simpa [badOperand?] using h
  · cases op <;> simp only [lowered, reduceCtorEq] at hc
    obtain ⟨rfl, rfl, rfl⟩ := Opcode.rep.inj hc
    simpa [badOperand?] using h

/-- **Accepted tables have operands that make sense.** -/
theorem Grammar.proper_ofTables {rules : List (Text × List Opcode)} {udts : List (Text × Bool)} {g : Grammar}
    (h : Grammar.ofTables rules udts = .ok g) : g.Proper := by
  intro id rule hid i op hop
  obtain ⟨table, htable, rfl⟩ := rule_ofTables h hid
  obtain ⟨raw, hraw, rfl⟩ := Rule.opcode_ofTable htable hop
  exact Opcode.proper_of_fault?_eq_none hraw

end SignIn
