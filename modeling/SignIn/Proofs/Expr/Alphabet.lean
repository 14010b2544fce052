import SignIn.Proofs.Expr.Classes
/-!
# Characters that rules read

Whatever a rule takes, it is made of characters that one of its ranges or literals reads, references opened.  So that a
text accepted by a rule is free of some characters can be looked up in the rules: `Expr.avoids` does, to a number of
levels, and `Lexicon.Takes.avoids` says that what it finds is so.  Callbacks do not matter, as long as they judge and do
not decide by themselves.
-/
namespace SignIn

/-- **A character of ASCII,** and none of some codes. -/
def AsciiExcept (bad : List Nat) (c : Char) : Prop := c.toNat ≤ 127 ∧ c.toNat ∉ bad

instance (bad : List Nat) (c : Char) : Decidable (AsciiExcept bad c) := inferInstanceAs (Decidable (_ ∧ _))

/-- **An expression reads no character outside ASCII and none of some codes,** references opened to a number of
levels.  Those codes are not letters, for a literal in any case is judged by its folded characters. -/
def Expr.avoids (rules : List (Text × Expr)) (bad : List Nat) : Nat → Expr → Bool
  | 0, _ => false
  | n + 1, .alt items => items.all (Expr.avoids rules bad n)
  | n + 1, .cat items => items.all (Expr.avoids rules bad n)
  | n + 1, .rep _ _ item => Expr.avoids rules bad n item
  | n + 1, .rnm name =>
    match rules.find? fun r => r.1 == name with
    | some r => Expr.avoids rules bad n r.2
    | none => false
  | _ + 1, .trg lo hi => decide (hi ≤ 127) && bad.all fun k => decide (k < lo) || decide (hi < k)
  | _ + 1, .tbs t => t.all fun c => decide (AsciiExcept bad c)
  | _ + 1, .tls t => t.all fun c => decide (AsciiExcept bad c.toLower)
  | _ + 1, .and _ => true
  | _ + 1, .not _ => true
  | _ + 1, .udt _ => false

/-- A character whose lower case is no such code is none itself, if the codes are not those of capital letters. -/
theorem asciiExcept_of_toLower {bad : List Nat} (hbad : ∀ k ∈ bad, ¬ (65 ≤ k ∧ k ≤ 90)) {c : Char}
    (h : AsciiExcept bad c.toLower) : AsciiExcept bad c := by
  obtain ⟨hle, hnot⟩ := h
  rw [toNat_toLower] at hle hnot
  by_cases hc : 65 ≤ c.toNat ∧ c.toNat ≤ 90
  · exact ⟨by omega, fun hmem => hbad _ hmem hc⟩
  · rw [if_neg hc] at hle hnot
    exact ⟨hle, hnot⟩

namespace Lexicon

variable {D : Type} {l : Lexicon D} {e : Expr} {es : List Expr} {pre x post : Text} {d d' : D} {P : Char → Prop}

/-- **The rules of a lexicon judge:** what they take is taken by their expressions. -/
def Judging (l : Lexicon D) (rules : List (Text × Expr)) : Prop :=
  ∀ r ∈ rules, ∃ callback, l.Defines r.1 r.2 callback ∧ ∀ f ∈ callback, f.Judges

theorem Judging.takes_body {rules : List (Text × Expr)} (h : l.Judging rules) {r : Text × Expr} (hr : r ∈ rules)
    (htakes : l.Takes (.rnm r.1) pre x post d d') : ∃ d₁ d₂, l.Takes r.2 pre x post d₁ d₂ := by
  obtain ⟨callback, hdef, hjudges⟩ := h r hr
  cases callback with
  | none => exact ⟨d, d', (takes_rnm hdef).1 htakes⟩
  | some f =>
    obtain ⟨d₁, hbody, -⟩ := (takes_rnm_judged hdef (hjudges f rfl)).1 htakes
    exact ⟨_, d₁, hbody⟩

theorem takes_alt_mem : ∀ {es : List Expr} {d : D}, l.Takes (.alt es) pre x post d d' →
    ∃ e ∈ es, ∃ d, l.Takes e pre x post d d'
  | [], _, h => absurd h takes_alt_nil
  | e :: es, d, h => by
    rcases takes_alt_cons.1 h with h | ⟨d₁, -, h⟩
    · exact ⟨e, List.mem_cons_self, d, h⟩
    · obtain ⟨e', he', hd⟩ := takes_alt_mem h
      exact ⟨e', List.mem_cons_of_mem _ he', hd⟩

theorem forall_of_takes_cat : ∀ {es : List Expr} {pre x : Text} {d : D},
    (∀ e ∈ es, ∀ {pre x post d d'}, l.Takes e pre x post d d' → ∀ c ∈ x, P c) →
    l.Takes (.cat es) pre x post d d' → ∀ c ∈ x, P c
  | [], pre, x, d, _, h => by
    obtain ⟨rfl, -⟩ := takes_cat_nil.1 h
    simp
  | e :: es, pre, x, d, hes, h => by
    obtain ⟨y, z, d₁, rfl, hy, hz⟩ := takes_cat_cons.1 h
    rw [List.forall_mem_cons] at hes
    rw [List.forall_mem_append]
    exact ⟨hes.1 hy, forall_of_takes_cat hes.2 hz⟩

theorem forall_of_many {max : Option Nat} {done : Nat} {xs : List Text} {b : Bool}
    (he : ∀ {pre x post d d'}, l.Takes e pre x post d d' → ∀ c ∈ x, P c) (h : l.Many e max done pre xs post d d' b) :
    ∀ c ∈ xs.flatten, P c := by
  induction h with
  | more _ _ here _ ih =>
    rw [List.flatten_cons, List.forall_mem_append]
    exact ⟨he here, ih⟩
  | _ => simp

theorem eq_nil_of_ofLength (h : Phrase.empty = .ofLength x.length) : x = [] := by
  have hlen := congrArg Phrase.length h
  rw [Phrase.length_ofLength] at hlen
  exact List.length_eq_zero_iff.1 hlen.symm

theorem forall_of_takes_rep {min : Nat} {max : Option Nat}
    (he : ∀ {pre x post d d'}, l.Takes e pre x post d d' → ∀ c ∈ x, P c) (h : l.Takes (.rep min max e) pre x post d d') :
    ∀ c ∈ x, P c := by
  by_cases hmax : max = some 0
  · rw [Takes, outcome_eq, apply, if_pos hmax, Outcome.ended.injEq] at h
    rw [eq_nil_of_ofLength h.1]
    simp
  · obtain ⟨xs, b, rfl, hmany, -⟩ := (takes_rep hmax).1 h
    exact forall_of_many he hmany

/-- A lookahead reads nothing. -/
theorem eq_nil_of_peek {o : Outcome D} {positive : Bool} (h : peek o positive = .ended (.ofLength x.length) d') : x = [] := by
  rw [peek, Outcome.andThen_eq_ended] at h
  obtain ⟨p, d₁, -, h⟩ := h
  rw [Outcome.ended.injEq] at h
  split at h
  · exact eq_nil_of_ofLength h.1
  · exact absurd h.1.symm (Phrase.ofLength_ne_fail _)

/-- **What is taken has no character that the rules avoid.** -/
theorem Takes.avoids {rules : List (Text × Expr)} (hl : l.Judging rules) {bad : List Nat}
    (hbad : ∀ k ∈ bad, ¬ (65 ≤ k ∧ k ≤ 90)) : ∀ {n : Nat} {e : Expr} {pre x post : Text} {d d' : D},
    e.avoids rules bad n = true → l.Takes e pre x post d d' → ∀ c ∈ x, AsciiExcept bad c
  | n + 1, e, pre, x, post, d, d', ha, h => by
    have ih {e : Expr} (he : e.avoids rules bad n = true) {pre x post : Text} {d d' : D} :
        l.Takes e pre x post d d' → ∀ c ∈ x, AsciiExcept bad c := Takes.avoids hl hbad he
    cases e with
    | alt items =>
      rw [Expr.avoids, List.all_eq_true] at ha
      obtain ⟨e, he, _, h⟩ := takes_alt_mem h
      exact ih (ha e he) h
    | cat items =>
      rw [Expr.avoids, List.all_eq_true] at ha
      exact forall_of_takes_cat (fun e he => ih (ha e he)) h
    | rep min max item =>
      rw [Expr.avoids] at ha
      exact forall_of_takes_rep (ih ha) h
    | rnm name =>
      rw [Expr.avoids] at ha
      split at ha
      · rename_i r hr
        obtain rfl : r.1 = name := by simpa using List.find?_some hr
        obtain ⟨_, _, hbody⟩ := hl.takes_body (List.mem_of_find?_eq_some hr) h
        exact ih ha hbody
      · cases ha
    | udt name => simp [Expr.avoids] at ha
    | trg lo hi =>
      rw [Expr.avoids, Bool.and_eq_true, decide_eq_true_eq, List.all_eq_true] at ha
      obtain ⟨⟨c, rfl, hc⟩, -⟩ := (class_trg lo hi).takes.1 h
      rw [List.forall_mem_singleton]
      refine ⟨Nat.le_trans hc.2 ha.1, fun hmem => ?_⟩
      have hout := ha.2 _ hmem
      rw [Bool.or_eq_true, decide_eq_true_eq, decide_eq_true_eq] at hout
      omega
    | tbs t =>
      rw [Expr.avoids, List.all_eq_true] at ha
      obtain ⟨rfl, -⟩ := takes_tbs.1 h
      simpa using ha
    | tls t =>
      rw [Expr.avoids, List.all_eq_true] at ha
      obtain ⟨hfold, -⟩ := takes_tls.1 h
      intro c hc
      have hmem : c.toLower ∈ foldCase t := by
        rw [← hfold]
        exact List.mem_map_of_mem hc
      obtain ⟨k, hk, heq⟩ := List.mem_map.1 hmem
      refine asciiExcept_of_toLower hbad ?_
      rw [← heq]
      simpa using ha k hk
    | and item =>
      rw [Takes, outcome_eq, apply] at h
      simp [eq_nil_of_peek h]
    | not item =>
      rw [Takes, outcome_eq, apply] at h
      simp [eq_nil_of_peek h]

end Lexicon
end SignIn
