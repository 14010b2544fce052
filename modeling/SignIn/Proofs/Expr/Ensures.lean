import Mathlib.Algebra.Order.Ring.Int
import SignIn.Proofs.Expr.Alphabet
import SignIn.Proofs.Expr.Depth
/-!
# What expressions ensure

`l.Ensures input e o d Q` is a weakest precondition: from the offset and with the data the expression breaks nothing
off, and its phrase and its data satisfy `Q`.  Whether there is an outcome at all is the question of the depth, which
`Expr.within` answers, so a starved outcome ensures anything.  There is one rule for each operator; that of the repetition
takes an invariant of the rounds.

A property of the data that every callback keeps is kept by every rule.  For properties that some callbacks keep only
where their rules are called in the right place, `Expr.stays` looks up which rules an expression can reach.
-/
namespace SignIn

/-- **An expression stays within some rules:** it reaches none that are barred, and of those that stand for themselves it
does not look inside; references are opened to a number of levels. -/
def Expr.stays (rules : List (Text × Expr)) (units barred : List Text) : Nat → Expr → Bool
  | 0, _ => false
  | n + 1, .alt items => items.all (Expr.stays rules units barred n)
  | n + 1, .cat items => items.all (Expr.stays rules units barred n)
  | n + 1, .rep _ _ item => Expr.stays rules units barred n item
  | n + 1, .rnm name =>
    decide (name ∈ units) || !decide (name ∈ barred) &&
      match rules.find? fun r => r.1 == name with
      | some r => Expr.stays rules units barred n r.2
      | none => false
  | n + 1, .and item => Expr.stays rules units barred n item
  | n + 1, .not item => Expr.stays rules units barred n item
  | _ + 1, .udt _ => false
  | _ + 1, _ => true

/-- How much a literal or a range reads; of other expressions that is not said. -/
def Expr.literalLength : Expr → Nat
  | .tbs t | .tls t => t.length
  | .trg _ _ => 1
  | _ => 0

/-- How much an expression reads at least, by the literals of its sequence. -/
def Expr.atLeast : Expr → Nat
  | .cat items => (items.map Expr.literalLength).sum
  | e => e.literalLength

/-- **An outcome ensures** what holds of its phrase and its run. -/
def Outcome.Ensures {ρ : Type} (x : Outcome ρ) (Q : Phrase → ρ → Prop) : Prop :=
  x = .starved ∨ ∃ p r, x = .ended p r ∧ Q p r

namespace Outcome

variable {ρ : Type} {x : Outcome ρ} {Q R : Phrase → ρ → Prop}

theorem Ensures.ended {p : Phrase} {r : ρ} (h : Q p r) : (Outcome.ended p r).Ensures Q := .inr ⟨p, r, rfl, h⟩

theorem Ensures.mono (h : x.Ensures Q) (hQ : ∀ p r, x = .ended p r → Q p r → R p r) : x.Ensures R := by
  rcases h with h | ⟨p, r, hx, hp⟩
  · exact .inl h
  · exact .inr ⟨p, r, hx, hQ p r hx hp⟩

theorem Ensures.andThen {k : Phrase → ρ → Outcome ρ} (h : x.Ensures Q)
    (hk : ∀ p r, x = .ended p r → Q p r → (k p r).Ensures R) : (x.andThen k).Ensures R := by
  rcases h with rfl | ⟨p, r, rfl, hp⟩
  · exact .inl rfl
  · exact hk p r rfl hp

theorem Ensures.of_ended {p : Phrase} {r : ρ} (h : x.Ensures Q) (hx : x = .ended p r) : Q p r := by
  subst hx
  obtain ⟨p', r', heq, hq⟩ := h.resolve_left (by simp)
  cases heq
  exact hq

end Outcome

namespace Lexicon

variable {D : Type} {l : Lexicon D} {input : Array Char} {e : Expr} {es : List Expr} {o : Nat} {d : D} {name : Text}
  {f : Callback D} {Q R : Phrase → D → Prop}

/-- **An expression ensures** what holds of its phrase and its data, from an offset and with data. -/
def Ensures (l : Lexicon D) (input : Array Char) (e : Expr) (o : Nat) (d : D) (Q : Phrase → D → Prop) : Prop :=
  (l.outcome input e o d).Ensures Q

theorem Ensures.mono (h : l.Ensures input e o d Q) (hQ : ∀ p d', Q p d' → R p d') : l.Ensures input e o d R :=
  Outcome.Ensures.mono h fun p d' _ => hQ p d'

/-! ## The operators -/

theorem ensures_alt_nil (h : Q .fail d) : l.Ensures input (.alt []) o d Q := by
  rw [Ensures, outcome_eq]
  exact .ended h

/-- **A choice:** where the first operand fails, the others go on with its data. -/
theorem ensures_alt_cons (h : l.Ensures input e o d R) (hfilled : ∀ p d₁, p.state ≠ .noMatch → R p d₁ → Q p d₁)
    (hnext : ∀ d₁, R .fail d₁ → l.Ensures input (.alt es) o d₁ Q) (ho : o ≤ input.size) :
    l.Ensures input (.alt (e :: es)) o d Q := by
  rw [Ensures, outcome_alt_cons]
  refine Outcome.Ensures.andThen h fun p d₁ hp hR => ?_
  by_cases hs : p.state = .noMatch
  · rw [if_pos hs]
    obtain rfl := Phrase.eq_fail_of_settled (fits_outcome hp ho).1 hs
    exact hnext d₁ hR
  · rw [if_neg hs]
    exact .ended (hfilled p d₁ hs hR)

theorem ensures_cat_nil (h : Q .empty d) : l.Ensures input (.cat []) o d Q := by
  rw [Ensures, outcome_eq]
  exact .ended h

/-- **A sequence:** where the first operand matches, the others go on behind it. -/
theorem ensures_cat_cons (h : l.Ensures input e o d R) (hfail : ∀ d₁, R .fail d₁ → Q .fail d₁)
    (hnext : ∀ p d₁, p.state ≠ .noMatch → p.Fits input.size o → R p d₁ →
      l.Ensures input (.cat es) (o + p.length) d₁ fun q d₂ => Q (q.after p.length) d₂)
    (ho : o ≤ input.size) : l.Ensures input (.cat (e :: es)) o d Q := by
  rw [Ensures, outcome_cat_cons]
  refine Outcome.Ensures.andThen h fun p d₁ hp hR => ?_
  have hfits := fits_outcome hp ho
  by_cases hs : p.state = .noMatch
  · rw [if_pos hs]
    obtain rfl := Phrase.eq_fail_of_settled hfits.1 hs
    exact .ended (hfail d₁ hR)
  · rw [if_neg hs]
    exact Outcome.Ensures.andThen (hnext p d₁ hs hfits hR) fun q d₂ _ hq => .ended hq

theorem ensures_cat_one (h : l.Ensures input e o d Q) (ho : o ≤ input.size) : l.Ensures input (.cat [e]) o d Q := by
  refine ensures_cat_cons h (fun _ h => h) (fun p d₁ hs hp hQ => ensures_cat_nil ?_) ho
  have hsame : Phrase.after p.length .empty = p := by
    rw [Phrase.eq_ofLength_of_settled hp.1 hs, Phrase.length_ofLength]
    exact Phrase.after_ofLength _ 0
  rw [hsame]
  exact hQ

/-- The rounds of a repetition keep their invariant up to its end, as long as the counter does not show what it may have. -/
theorem ensures_repetition {counter : Counter} {min : Nat} {max : Option Nat} {I : Nat → Nat → D → Prop}
    (hround : ∀ k n d, max ≠ some k → o + n ≤ input.size → I k n d → l.Ensures input e (o + n) d fun p d' =>
      I (if p.state = .matched then counter.next k else k) (n + p.length) d')
    (hend : ∀ k n d, o + n ≤ input.size → I k n d → Q (Engine.repeated min k n) d ∧ Q (.ofLength n) d) :
    ∀ (budget k n : Nat) (d : D), max ≠ some k → o + n ≤ input.size → I k n d →
      (Engine.repetition counter (fun n => l.outcome input e (o + n)) min max (input.size - o) budget k n d).Ensures Q
  | 0, k, n, d, _, hn, hI => .ended (hend k n d hn hI).1
  | budget + 1, k, n, d, hk, hn, hI => by
    unfold Engine.repetition
    by_cases ha : input.size - o ≤ n
    · rw [if_pos ha]
      exact .ended (hend k n d hn hI).1
    rw [if_neg ha]
    refine Outcome.Ensures.andThen (hround k n d hk hn hI) fun p d' hp hI' => ?_
    have hfits := fits_outcome hp hn
    cases hs : p.state with
    | active => exact absurd hs hfits.1.1
    | noMatch =>
      obtain rfl := Phrase.eq_fail_of_settled hfits.1 hs
      exact .ended (hend k n d' hn hI').1
    | emptyMatch =>
      have hlen : p.length = 0 := by
        have hfilled := hfits.1.2
        rw [hs] at hfilled
        exact Nat.eq_zero_of_not_pos fun hpos => absurd (hfilled.1 hpos) (by simp)
      rw [hs, hlen] at hI'
      exact .ended (hend k n d' hn hI').2
    | matched =>
      have hle : o + (n + p.length) ≤ input.size := by
        have := hfits.2
        omega
      rw [hs] at hI'
      dsimp only
      by_cases hk' : max = some (counter.next k)
      · rw [if_pos hk']
        exact .ended (hend _ _ _ hle hI').1
      · rw [if_neg hk']
        exact ensures_repetition hround hend budget _ _ _ hk' hle hI'

/-- **A repetition** ensures what an invariant of its rounds comes to.  The invariant speaks of what the counter shows of
the rounds that matched and of how much they read; a round that does not match leaves it as it is. -/
theorem ensures_rep_shown {min : Nat} {max : Option Nat} {I : Nat → Nat → D → Prop} (ho : o ≤ input.size)
    (hstart : I 0 0 d)
    (hround : ∀ k n d, max ≠ some k → o + n ≤ input.size → I k n d → l.Ensures input e (o + n) d fun p d' =>
      I (if p.state = .matched then l.counter.next k else k) (n + p.length) d')
    (hend : ∀ k n d, o + n ≤ input.size → I k n d → Q (Engine.repeated min k n) d ∧ Q (.ofLength n) d) :
    l.Ensures input (.rep min max e) o d Q := by
  rw [Ensures, outcome_eq, apply]
  by_cases hmax : max = some 0
  · rw [if_pos hmax]
    exact .ended (hend 0 0 d ho hstart).2
  · rw [if_neg hmax]
    exact ensures_repetition hround hend _ 0 0 d hmax ho hstart

/-- Where rounds are counted exactly, fewer matched than there may be as long as there is another. -/
theorem ensures_rep [l.Exact] {min : Nat} {max : Option Nat} {I : Nat → Nat → D → Prop} (ho : o ≤ input.size)
    (hstart : I 0 0 d)
    (hround : ∀ k n d, (∀ m ∈ max, k < m) → o + n ≤ input.size → I k n d → l.Ensures input e (o + n) d fun p d' =>
      I (if p.state = .matched then k + 1 else k) (n + p.length) d')
    (hend : ∀ k n d, o + n ≤ input.size → I k n d → Q (Engine.repeated min k n) d ∧ Q (.ofLength n) d) :
    l.Ensures input (.rep min max e) o d Q := by
  refine ensures_rep_shown (I := fun k n d => (∀ m ∈ max, k ≤ m) ∧ I k n d) ho ⟨fun m _ => Nat.zero_le m, hstart⟩ ?_
    fun k n d hn h => hend k n d hn h.2
  rintro k n d hk hn ⟨hle, hI⟩
  have hlt : ∀ m ∈ max, k < m := fun m hm => Nat.lt_of_le_of_ne (hle m hm) fun heq => hk (by rw [heq]; exact hm)
  refine (hround k n d hlt hn hI).mono fun p d' hI' => ?_
  rw [Exact.counter_eq (l := l), Counter.next_exact]
  refine ⟨fun m hm => ?_, hI'⟩
  have := hlt m hm
  split <;> omega

/-- A lookahead reads nothing and leaves the data of its operand. -/
theorem ensures_peek (positive : Bool) (h : l.Ensures input e o d fun _ d' => Q .empty d' ∧ Q .fail d') :
    Outcome.Ensures (peek (l.outcome input e o d) positive) Q := by
  refine Outcome.Ensures.andThen h fun p d' _ hq => .ended ?_
  split
  · exact hq.1
  · exact hq.2

/-- A rule without a callback does what its expression does. -/
theorem ensures_rnm (h : l.Defines name e none) (he : l.Ensures input e o d Q) : l.Ensures input (.rnm name) o d Q := by
  rw [Ensures, outcome_of_defines h]
  exact he

/-- **A rule with a callback that judges:** the expression is run with what the callback prepared, and then the callback
has its say. -/
theorem ensures_rnm_judged (h : l.Defines name e (some f)) (hf : f.Judges) (ho : o ≤ input.size)
    (he : l.Ensures input e o (f .undecided input o d).2 R)
    (hup : ∀ p d₁, l.outcome input e o (f .undecided input o d).2 = .ended p d₁ → p.Fits input.size o → R p d₁ →
      Q (f p input o d₁).1 (f p input o d₁).2) : l.Ensures input (.rnm name) o d Q := by
  rw [Ensures, outcome_of_judges h hf input ho]
  exact Outcome.Ensures.andThen he fun p d₁ hp hR => .ended (hup p d₁ hp (fits_outcome hp ho) hR)

/-! ## What is kept -/

/-- **An expression keeps a property of the data,** wherever it is run. -/
def Keeps (l : Lexicon D) (input : Array Char) (J : D → Prop) (e : Expr) : Prop :=
  ∀ o d, o ≤ input.size → J d → l.Ensures input e o d fun _ => J

/-- **A callback keeps a property of the data:** before the expression of its rule, and after it whatever that came
to. -/
structure KeptBy (l : Lexicon D) (input : Array Char) (J : D → Prop) (body : Expr) (f : Callback D) : Prop where
  judges : f.Judges
  down : ∀ {o d}, o ≤ input.size → J d → J (f .undecided input o d).2
  up : ∀ {o p d d₁}, o ≤ input.size → p.Fits input.size o → l.outcome input body o d = .ended p d₁ → J d₁ →
    J (f p input o d₁).2

theorem Keeps.rnm {J : D → Prop} (h : l.Defines name e none) (he : l.Keeps input J e) : l.Keeps input J (.rnm name) :=
  fun o d ho hd => ensures_rnm h (he o d ho hd)

theorem Keeps.rnm_keptBy {J : D → Prop} (h : l.Defines name e (some f)) (hf : l.KeptBy input J e f)
    (he : l.Keeps input J e) : l.Keeps input J (.rnm name) := fun o _ ho hd =>
  ensures_rnm_judged h hf.judges ho (he o _ ho (hf.down ho hd)) fun _ _ hp hfits => hf.up ho hfits hp

theorem ensures_alt {J : D → Prop} (ho : o ≤ input.size) : ∀ {es : List Expr} {d : D}, (∀ e ∈ es, l.Keeps input J e) → J d →
    l.Ensures input (.alt es) o d fun _ => J
  | [], _, _, hd => ensures_alt_nil hd
  | e :: es, d, he, hd => by
    rw [List.forall_mem_cons] at he
    exact ensures_alt_cons (he.1 o d ho hd) (fun _ _ _ h => h) (fun d₁ h => ensures_alt ho he.2 h) ho

theorem ensures_cat {J : D → Prop} : ∀ {es : List Expr} {o : Nat} {d : D}, o ≤ input.size → (∀ e ∈ es, l.Keeps input J e) →
    J d → l.Ensures input (.cat es) o d fun _ => J
  | [], _, _, _, _, hd => ensures_cat_nil hd
  | e :: es, o, d, ho, he, hd => by
    rw [List.forall_mem_cons] at he
    refine ensures_cat_cons (he.1 o d ho hd) (fun _ h => h) (fun p d₁ _ hp h => ?_) ho
    exact ensures_cat hp.2 he.2 h

variable {rules : List (Text × Expr)} {units barred : List Text} {J : D → Prop}

/-- **An expression keeps what the rules keep within which it stays:** those that stand for themselves by assumption, the
others because their callbacks do. -/
theorem keeps_of_stays (hunits : ∀ name ∈ units, l.Keeps input J (.rnm name))
    (hrules : ∀ r ∈ rules, r.1 ∉ units → r.1 ∉ barred →
      ∃ callback, l.Defines r.1 r.2 callback ∧ ∀ f ∈ callback, l.KeptBy input J r.2 f) :
    ∀ {n : Nat} {e : Expr}, e.stays rules units barred n = true → l.Keeps input J e
  | n + 1, e, hs, o, d, ho, hd => by
    have ih {e : Expr} (he : e.stays rules units barred n = true) : l.Keeps input J e := keeps_of_stays hunits hrules he
    have hterminal : ∀ p : Phrase, Outcome.Ensures (.ended p d) fun _ => J := fun _ => .ended hd
    cases e with
    | alt items =>
      rw [Expr.stays, List.all_eq_true] at hs
      exact ensures_alt ho (fun e he => ih (hs e he)) hd
    | cat items =>
      rw [Expr.stays, List.all_eq_true] at hs
      exact ensures_cat ho (fun e he => ih (hs e he)) hd
    | rep min max item =>
      rw [Expr.stays] at hs
      refine ensures_rep_shown (I := fun _ _ => J) ho hd (fun k m d _ hm hd => ih hs (o + m) d hm hd) ?_
      exact fun _ _ _ _ h => ⟨h, h⟩
    | rnm name =>
      rw [Expr.stays, Bool.or_eq_true, decide_eq_true_eq, Bool.and_eq_true, Bool.not_eq_true', decide_eq_false_iff_not] at hs
      by_cases hname : name ∈ units
      · exact hunits name hname o d ho hd
      obtain ⟨hbarred, hopen⟩ := hs.resolve_left hname
      split at hopen
      · rename_i r hr
        obtain rfl : r.1 = name := by simpa using List.find?_some hr
        obtain ⟨callback, hdef, hkept⟩ := hrules r (List.mem_of_find?_eq_some hr) hname hbarred
        cases callback with
        | none => exact Keeps.rnm hdef (ih hopen) o d ho hd
        | some f => exact Keeps.rnm_keptBy hdef (hkept f rfl) (ih hopen) o d ho hd
      · cases hopen
    | udt name => cases hs
    | trg min max =>
      rw [Ensures, outcome_eq]
      exact hterminal _
    | tbs text =>
      rw [Ensures, outcome_eq]
      exact hterminal _
    | tls text =>
      rw [Ensures, outcome_eq]
      exact hterminal _
    | and item =>
      rw [Expr.stays] at hs
      rw [Ensures, outcome_eq]
      exact ensures_peek true ((ih hs o d ho hd).mono fun _ _ h => ⟨h, h⟩)
    | not item =>
      rw [Expr.stays] at hs
      rw [Ensures, outcome_eq]
      exact ensures_peek false ((ih hs o d ho hd).mono fun _ _ h => ⟨h, h⟩)

/-! ## How much is read at least -/

/-- **A rule reads its literals at least.** -/
theorem atLeast_le_of_takes {pre x post : Text} {d d' : D} (h : l.Takes e pre x post d d') : e.atLeast ≤ x.length := by
  have hsingle : ∀ {e : Expr} {pre x post : Text} {d d' : D}, l.Takes e pre x post d d' → e.literalLength ≤ x.length := by
    intro e pre x post d d' h
    cases e with
    | trg lo hi =>
      obtain ⟨⟨c, rfl, -⟩, -⟩ := (class_trg lo hi).takes.1 h
      exact Nat.le_refl 1
    | tbs t =>
      obtain ⟨rfl, -⟩ := takes_tbs.1 h
      exact Nat.le_refl _
    | tls t =>
      have hlen := congrArg List.length (takes_tls.1 h).1
      rw [foldCase, foldCase, List.length_map, List.length_map] at hlen
      exact Nat.le_of_eq hlen.symm
    | _ => exact Nat.zero_le _
  cases e with
  | cat items =>
    rw [Expr.atLeast]
    induction items generalizing pre x d with
    | nil => exact Nat.zero_le _
    | cons e items ih =>
      obtain ⟨y, z, d₁, rfl, hy, hz⟩ := takes_cat_cons.1 h
      have hfirst := hsingle hy
      have hrest := ih hz
      rw [List.map_cons, List.sum_cons, List.length_append]
      omega
  | _ => exact hsingle h

theorem atLeast_le {p : Phrase} {d' : D} (ho : o ≤ input.size) (h : l.outcome input e o d = .ended p d')
    (hs : p.state ≠ .noMatch) : e.atLeast ≤ p.length := by
  obtain ⟨pre, post, hinput, rfl⟩ : ∃ pre post : Text, input = (pre ++ post).toArray ∧ o = pre.length := by
    refine ⟨input.toList.take o, input.toList.drop o, ?_, ?_⟩
    · rw [List.take_append_drop, Array.toArray_toList]
    · rw [List.length_take, Array.length_toList, Nat.min_eq_left ho]
  rw [hinput] at h
  rcases taken_or_refused h with ⟨hfail, -⟩ | ⟨-, x, rest, -, rfl, htakes⟩
  · exact absurd hfail hs
  · rw [Phrase.length_ofLength]
    exact atLeast_le_of_takes htakes

end Lexicon
end SignIn
