import Mathlib.Data.List.Nodup
import SignIn.Grammar.Basic
/-!
# What a name stands for

The names of a grammar are distinct up to ASCII case, rules and terminals together, or the grammar is not made.  So a
name stands for the one rule or terminal that bears it, and to look a name up is to know who bears it: nothing has to
be said of who comes first.
-/
namespace SignIn

theorem sameName_iff {a b : Text} : sameName a b = true ↔ foldCase a = foldCase b := by
  rw [sameName, beq_iff_eq]

/-- **No name is repeated** if all are distinct up to case, from each other and from those seen before. -/
theorem firstRepeated_eq_none {seen : List Text} :
    ∀ {names : List Text}, firstRepeated seen names = none ↔
      (∀ n ∈ names, foldCase n ∉ seen) ∧ (names.map foldCase).Nodup
  | [] => by simp [firstRepeated]
  | n :: ns => by
    unfold firstRepeated
    by_cases h : foldCase n ∈ seen
    · simp [h]
    · rw [if_neg h, firstRepeated_eq_none]
      simp only [List.mem_cons, not_or, List.map_cons, List.nodup_cons, List.mem_map, not_exists, not_and]
      constructor
      · rintro ⟨ha, hn⟩
        refine ⟨?_, fun m hm => (ha m hm).1, hn⟩
        rintro m (rfl | hm)
        · exact h
        · exact (ha m hm).2
      · rintro ⟨ha, hne, hn⟩
        exact ⟨fun m hm => ⟨hne m hm, ha m (.inr hm)⟩, hn⟩

/-- Among distinct names, the bearer of a name is the first one. -/
theorem findIdx?_sameName {names : List Text} (hd : (names.map foldCase).Nodup) {i : Nat} {n name : Text}
    (hi : names[i]? = some n) (hn : sameName name n = true) : names.findIdx? (sameName name) = some i := by
  obtain ⟨hlt, rfl⟩ := List.getElem?_eq_some_iff.1 hi
  rw [List.findIdx?_eq_some_iff_getElem]
  refine ⟨hlt, hn, fun j hj hs => ?_⟩
  have hfold : foldCase names[j] = foldCase names[i] := by rw [← sameName_iff.1 hs, sameName_iff.1 hn]
  have hj' : j < names.length := Nat.lt_trans hj hlt
  have heq : (names.map foldCase)[j]? = (names.map foldCase)[i]? := by simp [hlt, hj', hfold]
  have := (List.getElem?_inj (by simpa using hj') hd).1 heq
  omega

variable {rules udts : List Text} {name n : Text}

/-- **A name that a rule bears, stands for the rule.** -/
theorem resolveName_rule (hd : ((rules ++ udts).map foldCase).Nodup) {i : Nat} (hi : rules[i]? = some n)
    (hn : sameName name n = true) : resolveName rules udts name = some (.rule ⟨i⟩) := by
  rw [List.map_append] at hd
  rw [resolveName, findIdx?_sameName hd.of_append_left hi hn]

/-- **A name that a terminal bears, stands for the terminal.** -/
theorem resolveName_udt (hd : ((rules ++ udts).map foldCase).Nodup) {i : Nat} (hi : udts[i]? = some n)
    (hn : sameName name n = true) : resolveName rules udts name = some (.udt ⟨i⟩) := by
  rw [List.map_append] at hd
  have hnone : rules.findIdx? (sameName name) = none := by
    rw [List.findIdx?_eq_none_iff]
    intro r hr
    rw [Bool.eq_false_iff]
    intro hs
    refine List.disjoint_of_nodup_append hd (List.mem_map_of_mem hr) ?_
    rw [← sameName_iff.1 hs, sameName_iff.1 hn]
    exact List.mem_map_of_mem (List.mem_of_getElem? hi)
  rw [resolveName, hnone]
  simp only [findIdx?_sameName hd.of_append_right hi hn, Option.map_some]

/-- **What stands for a rule, the rule bears.** -/
theorem resolveName_eq_rule {id : RuleId} (h : resolveName rules udts name = some (.rule id)) :
    ∃ n, rules[id.index]? = some n ∧ sameName name n = true := by
  unfold resolveName at h
  split at h
  · rename_i i hi
    cases h
    obtain ⟨hlt, hs, -⟩ := List.findIdx?_eq_some_iff_getElem.1 hi
    exact ⟨_, List.getElem?_eq_getElem hlt, hs⟩
  · simp at h

/-- **What stands for a terminal, the terminal bears.** -/
theorem resolveName_eq_udt {id : UdtId} (h : resolveName rules udts name = some (.udt id)) :
    ∃ n, udts[id.index]? = some n ∧ sameName name n = true := by
  unfold resolveName at h
  split at h
  · cases h
  · obtain ⟨i, hi, hid⟩ := Option.map_eq_some_iff.1 h
    cases hid
    obtain ⟨hlt, hs, -⟩ := List.findIdx?_eq_some_iff_getElem.1 hi
    exact ⟨_, List.getElem?_eq_getElem hlt, hs⟩

theorem resolveName_rule_lt {id : RuleId} (h : resolveName rules udts name = some (.rule id)) :
    id.index < rules.length := by
  obtain ⟨n, hn, -⟩ := resolveName_eq_rule h
  exact (List.getElem?_eq_some_iff.1 hn).1

theorem resolveName_udt_lt {id : UdtId} (h : resolveName rules udts name = some (.udt id)) :
    id.index < udts.length := by
  obtain ⟨n, hn, -⟩ := resolveName_eq_udt h
  exact (List.getElem?_eq_some_iff.1 hn).1

/-- A start rule is what its name stands for. -/
theorem Grammar.ruleId?_eq_some {g : Grammar} {id : RuleId} :
    g.ruleId? name = some id ↔ g.lookup name = some (.rule id) := by
  unfold ruleId?
  constructor
  · intro h
    split at h
    · rename_i hl
      cases h
      exact hl
    · cases h
  · intro h
    rw [h]

/-- **A start rule is in its table.** -/
theorem Grammar.ruleId?_lt {g : Grammar} {id : RuleId} (h : g.ruleId? name = some id) : id.index < g.rules.size := by
  have := resolveName_rule_lt (ruleId?_eq_some.1 h)
  simpa using this

end SignIn
