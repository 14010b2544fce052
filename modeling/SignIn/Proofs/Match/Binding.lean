import SignIn.Match.Matcher
import SignIn.Proofs.Grammar.Names
/-!
# What callbacks are bound to

Callbacks are bound by name.  Where the names of a grammar are distinct and each callback has the name of a rule, every
rule has the callback of its own name, or the one it had before.
-/
namespace SignIn
namespace Matcher

variable {D : Type} {m : Matcher D} {name : Text} {f : Callback D}

theorem grammar_bare (g : Grammar) (counter : Counter) : (bare g counter : Matcher D).grammar = g := rfl

theorem size_onRule_bare (g : Grammar) (counter : Counter) : (bare g counter : Matcher D).onRule.size = g.rules.size :=
  Array.size_replicate

theorem ruleCallback?_bare (g : Grammar) (counter : Counter) (id : RuleId) :
    (bare g counter : Matcher D).ruleCallback? id = none := by
  rw [ruleCallback?, bare, Array.getElem?_replicate]
  split <;> rfl

/-- A callback bound to the rule at a place of the table. -/
def onRuleAt (m : Matcher D) (i : Nat) (f : Callback D) : Matcher D :=
  { m with onRule := m.onRule.setIfInBounds i (some f) }

theorem bind_rule {id : RuleId} (h : m.grammar.lookup name = some (.rule id)) :
    m.bind name f = .ok (m.onRuleAt id.index f) := by
  rw [bind, h]
  rfl

theorem ruleCallback?_onRuleAt_self {i : Nat} (h : i < m.onRule.size) : (m.onRuleAt i f).ruleCallback? ⟨i⟩ = some f := by
  rw [ruleCallback?, onRuleAt]
  simp [h]

theorem ruleCallback?_onRuleAt_of_ne {i : Nat} {id : RuleId} (h : id.index ≠ i) :
    (m.onRuleAt i f).ruleCallback? id = m.ruleCallback? id := by
  rw [ruleCallback?, onRuleAt, ruleCallback?]
  simp [Array.getElem?_setIfInBounds_ne (Ne.symm h)]

/-- The names of the rules. -/
def ruleNames (m : Matcher D) : List Text := m.grammar.rules.toList.map Rule.name

/-- **Callbacks with the names of rules can be bound,** and then each rule has the callback of its name. -/
theorem bindAll_ruleNames : ∀ {actions : List (Text × Callback D)} {m : Matcher D},
    ((m.ruleNames ++ m.grammar.udts.toList.map Udt.name).map foldCase).Nodup → m.onRule.size = m.grammar.rules.size →
    (∀ a ∈ actions, a.1 ∈ m.ruleNames) → (actions.map (·.1)).Nodup →
    ∃ m', m.bindAll actions = .ok m' ∧ m'.grammar = m.grammar ∧ m'.counter = m.counter ∧
      ∀ id n, m.ruleNames[RuleId.index id]? = some n →
        (∀ f, (n, f) ∈ actions → m'.ruleCallback? id = some f) ∧
        ((∀ a ∈ actions, a.1 ≠ n) → m'.ruleCallback? id = m.ruleCallback? id)
  | [], m, _, _, _, _ => ⟨m, rfl, rfl, rfl, fun id n _ => ⟨fun f hf => by simp at hf, fun _ => rfl⟩⟩
  | (name, f) :: actions, m, hd, hsize, hin, hn => by
    obtain ⟨i, hi⟩ := List.getElem?_of_mem (hin _ List.mem_cons_self)
    have hlt : i < m.onRule.size := by
      have := (List.getElem?_eq_some_iff.1 hi).1
      rwa [ruleNames, List.length_map, Array.length_toList, ← hsize] at this
    have hbind : m.bind name f = .ok (m.onRuleAt i f) :=
      bind_rule (resolveName_rule hd hi (sameName_iff.2 rfl))
    rw [List.map_cons, List.nodup_cons] at hn
    obtain ⟨m', hm', hg, hc, hcb⟩ := bindAll_ruleNames (m := m.onRuleAt i f) hd (by simpa [onRuleAt] using hsize)
      (fun a ha => hin a (List.mem_cons_of_mem _ ha)) hn.2
    refine ⟨m', by rw [bindAll, hbind]; exact hm', hg, hc, fun id n hid => ?_⟩
    obtain ⟨hsome, hnone⟩ := hcb id n hid
    constructor
    · intro g hg
      rcases List.mem_cons.1 hg with heq | hg
      · obtain ⟨rfl, rfl⟩ := Prod.mk.inj heq
        have hother : ∀ a ∈ actions, a.1 ≠ n := fun a ha hne => hn.1 (List.mem_map.2 ⟨a, ha, hne⟩)
        have hsame : i = id.index := by
          have hdist : (m.ruleNames.map foldCase).Nodup := by
            rw [List.map_append] at hd
            exact hd.of_append_left
          refine (List.getElem?_inj ?_ hdist.of_map).1 (hi.trans hid.symm)
          exact (List.getElem?_eq_some_iff.1 hi).1
        rw [hnone hother]
        subst hsame
        exact ruleCallback?_onRuleAt_self hlt
      · exact hsome g hg
    · intro hother
      have hne : id.index ≠ i := by
        rintro rfl
        rw [hi] at hid
        exact hother _ List.mem_cons_self (Option.some.inj hid)
      rw [hnone fun a ha => hother a (List.mem_cons_of_mem _ ha), ruleCallback?_onRuleAt_of_ne hne]

/-- A rule's callback is one that was bound to it, or the one it had before. -/
theorem ruleCallback?_bind {m' : Matcher D} (h : m.bind name f = .ok m') {id : RuleId} {g : Callback D}
    (hg : m'.ruleCallback? id = some g) : g = f ∨ m.ruleCallback? id = some g := by
  unfold bind at h
  split at h
  · rename_i rule _
    cases h
    change (m.onRuleAt rule.index f).ruleCallback? id = some g at hg
    by_cases hid : id = rule
    · by_cases hlt : rule.index < m.onRule.size
      · rw [hid, ruleCallback?_onRuleAt_self hlt] at hg
        exact .inl (Option.some.inj hg).symm
      · right
        rwa [onRuleAt, Array.setIfInBounds_eq_of_size_le (Nat.not_lt.1 hlt)] at hg
    · rw [ruleCallback?_onRuleAt_of_ne fun h => hid (congrArg RuleId.mk h)] at hg
      exact .inr hg
  · cases h
    exact .inr hg
  · cases h

theorem size_onUdt_bind {m' : Matcher D} (h : m.bind name f = .ok m') : m'.onUdt.size = m.onUdt.size := by
  unfold bind at h
  split at h
  · cases h
    rfl
  · cases h
    exact Array.size_setIfInBounds
  · cases h

/-- **Binding binds nothing else:** every callback of a rule is among those that were bound, or was there before. -/
theorem bound_of_bindAll : ∀ {actions : List (Text × Callback D)} {m m' : Matcher D}, m.bindAll actions = .ok m' →
    m'.onUdt.size = m.onUdt.size ∧ ∀ id g, m'.ruleCallback? id = some g →
      (∃ a ∈ actions, a.2 = g) ∨ m.ruleCallback? id = some g
  | [], m, m', h => by
    cases h
    exact ⟨rfl, fun id g hg => .inr hg⟩
  | (name, f) :: actions, m, m', h => by
    rw [bindAll] at h
    cases hbind : m.bind name f with
    | error e =>
      rw [hbind] at h
      cases h
    | ok m₁ =>
      rw [hbind] at h
      obtain ⟨hsize, hbound⟩ := bound_of_bindAll h
      refine ⟨hsize.trans (size_onUdt_bind hbind), fun id g hg => ?_⟩
      rcases hbound id g hg with ⟨a, ha, hag⟩ | hg
      · exact .inl ⟨a, List.mem_cons_of_mem _ ha, hag⟩
      · rcases ruleCallback?_bind hbind hg with rfl | hg
        · exact .inl ⟨(name, g), List.mem_cons_self, rfl⟩
        · exact .inr hg

/-! ## Terminals without a callback -/

/-- **The terminal that is told to have no callback** is the first that has none. -/
theorem unboundUdt?_eq_some : m.unboundUdt? = some name ↔ ∃ id udt, m.grammar.udts[UdtId.index id]? = some udt ∧
    udt.name = name ∧ m.udtCallback? id = none ∧ ∀ j < id.index, m.udtCallback? ⟨j⟩ ≠ none := by
  unfold unboundUdt?
  simp only [Option.map_eq_some_iff, List.find?_eq_some_iff_getElem, List.getElem_zipIdx, Option.isNone_iff_eq_none,
    List.length_zipIdx, Array.length_toList, Array.getElem_toList, Nat.zero_add]
  constructor
  · rintro ⟨-, ⟨hnone, i, hi, rfl, hbefore⟩, hname⟩
    refine ⟨⟨i⟩, _, Array.getElem?_eq_getElem hi, hname, hnone, fun j hj => ?_⟩
    exact Option.ne_none_iff_isSome.2 (by simpa using hbefore j hj)
  · rintro ⟨⟨i⟩, udt, hudt, hname, hnone, hbefore⟩
    obtain ⟨hi, rfl⟩ := Array.getElem?_eq_some_iff.1 hudt
    refine ⟨_, ⟨hnone, i, hi, rfl, fun j hj => ?_⟩, hname⟩
    simpa using Option.ne_none_iff_isSome.1 (hbefore j hj)

/-- **If none is told to have none, every terminal has a callback.** -/
theorem udtCallback?_ne_none (h : m.unboundUdt? = none) {id : UdtId} (hid : id.index < m.grammar.udts.size) :
    m.udtCallback? id ≠ none := by
  unfold unboundUdt? at h
  rw [Option.map_eq_none_iff, List.find?_eq_none] at h
  intro hn
  refine h (m.grammar.udts[id.index], id.index) ?_ (by simp [hn])
  rw [List.mem_zipIdx_iff_getElem?, Array.getElem?_toList, Array.getElem?_eq_getElem hid]

end Matcher
end SignIn
