import SignIn.Proofs.Expr.Outcome
import SignIn.Match.Action
import SignIn.Proofs.Match.Windows
/-!
# Texts that expressions take

The outcome of an expression speaks of offsets and lengths.  What one wants to know of a rule is which texts it takes:
`l.Takes e pre x post d d'` says that after `pre` and before `post` the expression takes the text `x`, and
`l.Refuses e pre post d d'` that it fails between them; the data go from `d` to `d'`, for a callback may note something
even where the expression fails.

Every operator has a lemma for each of the two, an equivalence.  So what a rule takes is found by rewriting, and the
lemmas are read from left to right to know what was taken, from right to left to know that it is.
-/
namespace SignIn

namespace Phrase

theorem ofLength_ne_fail (n : Nat) : ofLength n ≠ .fail := fun h => state_ofLength_ne n (congrArg state h)

@[simp] theorem ofLength_inj {m n : Nat} : ofLength m = ofLength n ↔ m = n :=
  ⟨fun h => by simpa using congrArg length h, fun h => by rw [h]⟩

@[simp] theorem state_ofLength_eq_matched {n : Nat} : (ofLength n).state = .matched ↔ n ≠ 0 := by
  unfold ofLength
  split <;> simp [*, empty]

@[simp] theorem isSuccess_ofLength (n : Nat) : (ofLength n).isSuccess = true := by
  unfold ofLength
  split <;> rfl

end Phrase

namespace Lexicon

variable {D : Type} {l : Lexicon D} {e : Expr} {es fs : List Expr} {pre x post : Text} {d d' : D}

/-- **An expression takes a text** after one text and before another. -/
def Takes (l : Lexicon D) (e : Expr) (pre x post : Text) (d d' : D) : Prop :=
  l.outcome (pre ++ (x ++ post)).toArray e pre.length d = .ended (.ofLength x.length) d'

/-- **An expression refuses** to take anything after one text and before another. -/
def Refuses (l : Lexicon D) (e : Expr) (pre post : Text) (d d' : D) : Prop :=
  l.outcome (pre ++ post).toArray e pre.length d = .ended .fail d'

/-- **What comes out is taken or refused.** -/
theorem taken_or_refused {p : Phrase} (h : l.outcome (pre ++ post).toArray e pre.length d = .ended p d') :
    (p.state = .noMatch ∧ p = .fail ∧ l.Refuses e pre post d d') ∨
      (p.state ≠ .noMatch ∧ ∃ x rest, post = x ++ rest ∧ p = .ofLength x.length ∧ l.Takes e pre x rest d d') := by
  have hfits := fits_outcome h (by simp)
  by_cases hs : p.state = .noMatch
  · have hp := Phrase.eq_fail_of_settled hfits.1 hs
    exact .inl ⟨hs, hp, by rw [Refuses, h, hp]⟩
  · have hp := Phrase.eq_ofLength_of_settled hfits.1 hs
    have hlen : p.length ≤ post.length := by simpa using hfits.2
    have hx : (post.take p.length).length = p.length := by simp [hlen]
    refine .inr ⟨hs, post.take p.length, post.drop p.length, (List.take_append_drop _ _).symm, by rw [hx]; exact hp, ?_⟩
    rw [Takes, List.take_append_drop, hx, ← hp]
    exact h

/-- What is taken or refused, is the only one. -/
theorem Takes.unique {y rest : Text} {d'' : D} (h : l.Takes e pre x post d d') (h' : l.Takes e pre y rest d d'')
    (ht : x ++ post = y ++ rest) : x = y ∧ post = rest ∧ d' = d'' := by
  rw [Takes, ← ht, show _ = _ from h, Outcome.ended.injEq, Phrase.ofLength_inj] at h'
  obtain ⟨hx, hp⟩ := List.append_inj ht h'.1
  exact ⟨hx, hp, h'.2⟩

theorem Takes.not_refuses {d'' : D} (h : l.Takes e pre x post d d') : ¬ l.Refuses e pre (x ++ post) d d'' := by
  intro h'
  rw [Refuses, show _ = _ from h, Outcome.ended.injEq] at h'
  exact Phrase.ofLength_ne_fail _ h'.1

theorem Refuses.unique {d'' : D} (h : l.Refuses e pre post d d') (h' : l.Refuses e pre post d d'') : d' = d'' := by
  rw [Refuses, show _ = _ from h, Outcome.ended.injEq] at h'
  exact h'.2

/-! ## Choice -/

theorem takes_alt_nil : ¬ l.Takes (.alt []) pre x post d d' := by
  rw [Takes, outcome_eq, apply, Engine.choice, Outcome.ended.injEq]
  exact fun h => Phrase.ofLength_ne_fail _ h.1.symm

theorem refuses_alt_nil : l.Refuses (.alt []) pre post d d' ↔ d' = d := by
  rw [Refuses, outcome_eq, apply, Engine.choice, Outcome.ended.injEq]
  exact ⟨fun h => h.2.symm, fun h => ⟨rfl, h.symm⟩⟩

theorem takes_alt_cons : l.Takes (.alt (e :: es)) pre x post d d' ↔
    l.Takes e pre x post d d' ∨ ∃ d₁, l.Refuses e pre (x ++ post) d d₁ ∧ l.Takes (.alt es) pre x post d₁ d' := by
  constructor
  · intro h
    rw [Takes, outcome_alt_cons, Outcome.andThen_eq_ended] at h
    obtain ⟨p, d₁, hp, h⟩ := h
    rcases taken_or_refused hp with ⟨hs, rfl, href⟩ | ⟨hs, -⟩
    · rw [if_pos hs] at h
      exact .inr ⟨d₁, href, h⟩
    · rw [if_neg hs] at h
      cases h
      exact .inl hp
  · rintro (h | ⟨d₁, href, h⟩)
    · rw [Takes, outcome_alt_cons, show _ = _ from h, Outcome.andThen, if_neg (Phrase.state_ofLength_ne _)]
    · rw [Takes, outcome_alt_cons, show _ = _ from href]
      exact h

theorem refuses_alt_cons : l.Refuses (.alt (e :: es)) pre post d d' ↔
    ∃ d₁, l.Refuses e pre post d d₁ ∧ l.Refuses (.alt es) pre post d₁ d' := by
  constructor
  · intro h
    rw [Refuses, outcome_alt_cons, Outcome.andThen_eq_ended] at h
    obtain ⟨p, d₁, hp, h⟩ := h
    rcases taken_or_refused hp with ⟨hs, rfl, href⟩ | ⟨hs, -⟩
    · rw [if_pos hs] at h
      exact ⟨d₁, href, h⟩
    · rw [if_neg hs] at h
      cases h
      exact absurd rfl hs
  · rintro ⟨d₁, href, h⟩
    rw [Refuses, outcome_alt_cons, show _ = _ from href]
    exact h

/-- A choice of more expressions comes to the later ones where the earlier ones refuse. -/
theorem takes_alt_append {fs : List Expr} : ∀ {es : List Expr} {d : D}, l.Takes (.alt (es ++ fs)) pre x post d d' ↔
    l.Takes (.alt es) pre x post d d' ∨ ∃ d₁, l.Refuses (.alt es) pre (x ++ post) d d₁ ∧ l.Takes (.alt fs) pre x post d₁ d'
  | [], d => by simp [takes_alt_nil, refuses_alt_nil]
  | e :: es, d => by
    rw [List.cons_append, takes_alt_cons, takes_alt_cons]
    have ih : ∀ d : D, _ := fun d => @takes_alt_append fs es d
    simp only [ih, refuses_alt_cons]
    constructor
    · rintro (h | ⟨d₁, href, h | ⟨d₂, href', h⟩⟩)
      · exact .inl (.inl h)
      · exact .inl (.inr ⟨d₁, href, h⟩)
      · exact .inr ⟨d₂, ⟨d₁, href, href'⟩, h⟩
    · rintro ((h | ⟨d₁, href, h⟩) | ⟨d₂, ⟨d₁, href, href'⟩, h⟩)
      · exact .inl h
      · exact .inr ⟨d₁, href, .inl h⟩
      · exact .inr ⟨d₁, href, .inr ⟨d₂, href', h⟩⟩

theorem refuses_alt_append {fs : List Expr} : ∀ {es : List Expr} {d : D}, l.Refuses (.alt (es ++ fs)) pre post d d' ↔
    ∃ d₁, l.Refuses (.alt es) pre post d d₁ ∧ l.Refuses (.alt fs) pre post d₁ d'
  | [], d => by simp [refuses_alt_nil]
  | e :: es, d => by
    have ih : ∀ d : D, _ := fun d => @refuses_alt_append fs es d
    simp only [List.cons_append, refuses_alt_cons, ih]
    exact ⟨fun ⟨d₁, h, d₂, h', h''⟩ => ⟨d₂, ⟨d₁, h, h'⟩, h''⟩,
      fun ⟨d₂, ⟨d₁, h, h'⟩, h''⟩ => ⟨d₁, h, d₂, h', h''⟩⟩

/-! ## Sequence -/

theorem takes_cat_nil : l.Takes (.cat []) pre x post d d' ↔ x = [] ∧ d' = d := by
  rw [Takes, outcome_eq, apply, Engine.sequence, Outcome.ended.injEq, Phrase.ofLength_inj, eq_comm,
    List.length_eq_zero_iff, eq_comm (a := d)]

theorem refuses_cat_nil : ¬ l.Refuses (.cat []) pre post d d' := by
  rw [Refuses, outcome_eq, apply, Engine.sequence, Outcome.ended.injEq]
  exact fun h => Phrase.ofLength_ne_fail _ h.1

theorem takes_cat_cons : l.Takes (.cat (e :: es)) pre x post d d' ↔
    ∃ y z d₁, x = y ++ z ∧ l.Takes e pre y (z ++ post) d d₁ ∧ l.Takes (.cat es) (pre ++ y) z post d₁ d' := by
  constructor
  · intro h
    rw [Takes, outcome_cat_cons, Outcome.andThen_eq_ended] at h
    obtain ⟨p, d₁, hp, h⟩ := h
    rcases taken_or_refused hp with ⟨hs, rfl, -⟩ | ⟨hs, y, rest, hyr, rfl, hy⟩
    · rw [if_pos hs, Outcome.ended.injEq] at h
      exact absurd h.1.symm (Phrase.ofLength_ne_fail _)
    rw [if_neg hs, Outcome.andThen_eq_ended] at h
    obtain ⟨q, d₂, hq, h⟩ := h
    rw [hyr, ← List.append_assoc, Phrase.length_ofLength, ← List.length_append] at hq
    rcases taken_or_refused hq with ⟨-, rfl, -⟩ | ⟨-, z, rest', rfl, rfl, hz⟩
    · rw [Outcome.ended.injEq] at h
      exact absurd h.1.symm (Phrase.ofLength_ne_fail _)
    rw [Phrase.after_ofLength, Phrase.length_ofLength, Outcome.ended.injEq, Phrase.ofLength_inj] at h
    obtain ⟨hlen, rfl⟩ := h
    rw [← List.append_assoc] at hyr
    obtain ⟨rfl, rfl⟩ := List.append_inj hyr (by rw [List.length_append, hlen])
    exact ⟨y, z, d₁, rfl, hy, hz⟩
  · rintro ⟨y, z, d₁, rfl, hy, hz⟩
    rw [Takes, List.append_assoc, outcome_cat_cons, show _ = _ from hy, Outcome.andThen,
      if_neg (Phrase.state_ofLength_ne _), Phrase.length_ofLength, ← List.append_assoc, ← List.length_append,
      show _ = _ from hz, Outcome.andThen, Phrase.after_ofLength, List.length_append]

theorem refuses_cat_cons : l.Refuses (.cat (e :: es)) pre post d d' ↔ l.Refuses e pre post d d' ∨
    ∃ y z d₁, post = y ++ z ∧ l.Takes e pre y z d d₁ ∧ l.Refuses (.cat es) (pre ++ y) z d₁ d' := by
  constructor
  · intro h
    rw [Refuses, outcome_cat_cons, Outcome.andThen_eq_ended] at h
    obtain ⟨p, d₁, hp, h⟩ := h
    rcases taken_or_refused hp with ⟨hs, rfl, href⟩ | ⟨hs, y, z, rfl, rfl, hy⟩
    · rw [if_pos hs] at h
      cases h
      exact .inl href
    rw [if_neg hs, Outcome.andThen_eq_ended] at h
    obtain ⟨q, d₂, hq, h⟩ := h
    rw [← List.append_assoc, Phrase.length_ofLength, ← List.length_append] at hq
    rcases taken_or_refused hq with ⟨-, rfl, href⟩ | ⟨-, z, rest', rfl, rfl, hz⟩
    · cases h
      exact .inr ⟨y, z, d₁, rfl, hy, href⟩
    · rw [Phrase.after_ofLength, Outcome.ended.injEq] at h
      exact absurd h.1 (Phrase.ofLength_ne_fail _)
  · rintro (h | ⟨y, z, d₁, rfl, hy, hz⟩)
    · rw [Refuses, outcome_cat_cons, show _ = _ from h]
      rfl
    · rw [Refuses, outcome_cat_cons, show _ = _ from hy, Outcome.andThen, if_neg (Phrase.state_ofLength_ne _),
        Phrase.length_ofLength, ← List.append_assoc, ← List.length_append, show _ = _ from hz]
      rfl

theorem takes_cat_one : l.Takes (.cat [e]) pre x post d d' ↔ l.Takes e pre x post d d' := by
  simp only [takes_cat_cons, takes_cat_nil]
  constructor
  · rintro ⟨y, _, _, rfl, h, rfl, rfl⟩
    rwa [List.append_nil]
  · intro h
    exact ⟨x, [], d', (List.append_nil x).symm, h, rfl, rfl⟩

theorem refuses_cat_one : l.Refuses (.cat [e]) pre post d d' ↔ l.Refuses e pre post d d' := by
  rw [refuses_cat_cons]
  exact or_iff_left fun ⟨_, _, _, _, _, hnil⟩ => refuses_cat_nil hnil

theorem takes_cat_append : ∀ {es : List Expr} {pre x : Text} {d : D}, l.Takes (.cat (es ++ fs)) pre x post d d' ↔
    ∃ y z d₁, x = y ++ z ∧ l.Takes (.cat es) pre y (z ++ post) d d₁ ∧ l.Takes (.cat fs) (pre ++ y) z post d₁ d'
  | [], pre, x, d => by simp [takes_cat_nil]
  | e :: es, pre, x, d => by
    simp only [List.cons_append, takes_cat_cons]
    constructor
    · rintro ⟨y, _, d₁, rfl, he, h⟩
      obtain ⟨z, w, d₂, rfl, hes, hfs⟩ := takes_cat_append.1 h
      rw [List.append_assoc] at he hfs
      exact ⟨y ++ z, w, d₂, (List.append_assoc _ _ _).symm, ⟨y, z, d₁, rfl, he, hes⟩, hfs⟩
    · rintro ⟨_, w, d₂, rfl, ⟨y, z, d₁, rfl, he, hes⟩, hfs⟩
      rw [← List.append_assoc] at he hfs
      exact ⟨y, z ++ w, d₁, List.append_assoc _ _ _, he, takes_cat_append.2 ⟨z, w, d₂, rfl, hes, hfs⟩⟩

theorem window_length (pre x post : Text) : phraseText (pre ++ (x ++ post)).toArray pre.length x.length = x := by
  rw [phraseText_eq, List.toList_toArray, List.drop_left, List.take_left]

theorem takes_tbs {t : Text} : l.Takes (.tbs t) pre x post d d' ↔ x = t ∧ d' = d := by
  rw [Takes, outcome_eq, apply, Outcome.ended.injEq]
  constructor
  · rintro ⟨h, rfl⟩
    refine ⟨?_, rfl⟩
    by_cases hw : phraseText (pre ++ (x ++ post)).toArray pre.length t.length = t
    · rw [Engine.literal_of_window hw, Phrase.ofLength_inj] at h
      rwa [h, window_length] at hw
    · rw [Engine.literal_of_not_window hw] at h
      exact absurd h.symm (Phrase.ofLength_ne_fail _)
  · rintro ⟨rfl, rfl⟩
    exact ⟨Engine.literal_of_window (window_length pre x post), rfl⟩

theorem takes_cat_tbs {t : Text} : l.Takes (.cat (.tbs t :: es)) pre x post d d' ↔
    ∃ z, x = t ++ z ∧ l.Takes (.cat es) (pre ++ t) z post d d' := by
  simp only [takes_cat_cons, takes_tbs]
  constructor
  · rintro ⟨y, z, d₁, rfl, ⟨rfl, rfl⟩, h⟩
    exact ⟨z, rfl, h⟩
  · rintro ⟨z, rfl, h⟩
    exact ⟨_, z, d, rfl, ⟨rfl, rfl⟩, h⟩

theorem refuses_tbs {t : Text} : l.Refuses (.tbs t) pre post d d' ↔ ¬ t <+: post ∧ d' = d := by
  rw [Refuses, outcome_eq, apply, Outcome.ended.injEq]
  constructor
  · rintro ⟨h, rfl⟩
    refine ⟨?_, rfl⟩
    rintro ⟨rest, rfl⟩
    rw [Engine.literal_of_window (window_length pre t rest)] at h
    exact Phrase.ofLength_ne_fail _ h
  · rintro ⟨h, rfl⟩
    refine ⟨Engine.literal_of_not_window fun hw => h ?_, rfl⟩
    rw [phraseText_eq, List.toList_toArray, List.drop_left] at hw
    rw [← hw]
    exact List.take_prefix _ _

theorem takes_tls {t : Text} : l.Takes (.tls t) pre x post d d' ↔ foldCase x = foldCase t ∧ d' = d := by
  rw [Takes, outcome_eq, apply, Outcome.ended.injEq]
  constructor
  · rintro ⟨h, rfl⟩
    refine ⟨?_, rfl⟩
    by_cases hw : foldCase (phraseText (pre ++ (x ++ post)).toArray pre.length t.length) = foldCase t
    · rw [Engine.foldedLiteral_of_window hw, Phrase.ofLength_inj] at h
      rwa [h, window_length] at hw
    · rw [Engine.foldedLiteral_of_not_window hw] at h
      exact absurd h.symm (Phrase.ofLength_ne_fail _)
  · rintro ⟨h, rfl⟩
    have hlen : x.length = t.length := by simpa [foldCase] using congrArg List.length h
    refine ⟨?_, rfl⟩
    rw [Engine.foldedLiteral_of_window (by rw [← hlen, window_length, h]), hlen]

theorem refuses_tls {t : Text} : l.Refuses (.tls t) pre post d d' ↔
    foldCase (post.take t.length) ≠ foldCase t ∧ d' = d := by
  have hw : phraseText (pre ++ post).toArray pre.length t.length = post.take t.length := by
    rw [phraseText_eq, List.toList_toArray, List.drop_left]
  rw [Refuses, outcome_eq, apply, Outcome.ended.injEq]
  constructor
  · rintro ⟨h, rfl⟩
    refine ⟨fun hf => ?_, rfl⟩
    rw [Engine.foldedLiteral_of_window (by rw [hw, hf])] at h
    exact Phrase.ofLength_ne_fail _ h
  · rintro ⟨h, rfl⟩
    exact ⟨Engine.foldedLiteral_of_not_window (by rwa [hw]), rfl⟩

/-! ## Lookahead -/

/-- Nothing is taken where the operand refuses. -/
theorem takes_not : l.Takes (.not e) pre x post d d' ↔ x = [] ∧ l.Refuses e pre post d d' := by
  rw [Takes, outcome_eq, apply, peek, Outcome.andThen_eq_ended]
  constructor
  · rintro ⟨p, d₁, hp, h⟩
    rcases taken_or_refused hp with ⟨-, rfl, href⟩ | ⟨-, y, rest, -, rfl, -⟩
    · cases x with
      | nil => exact ⟨rfl, by cases h; exact href⟩
      | cons c x => cases h
    · rw [Phrase.isSuccess_ofLength, if_neg (by simp), Outcome.ended.injEq] at h
      exact absurd h.1.symm (Phrase.ofLength_ne_fail _)
  · rintro ⟨rfl, h⟩
    exact ⟨.fail, d', h, rfl⟩

theorem refuses_not : l.Refuses (.not e) pre post d d' ↔ ∃ x rest, post = x ++ rest ∧ l.Takes e pre x rest d d' := by
  rw [Refuses, outcome_eq, apply, peek, Outcome.andThen_eq_ended]
  constructor
  · rintro ⟨p, d₁, hp, h⟩
    rcases taken_or_refused hp with ⟨-, rfl, -⟩ | ⟨-, x, rest, hx, rfl, htakes⟩
    · cases h
    · rw [Phrase.isSuccess_ofLength, if_neg (by simp), Outcome.ended.injEq] at h
      exact ⟨x, rest, hx, h.2 ▸ htakes⟩
  · rintro ⟨x, rest, rfl, h⟩
    exact ⟨_, d', h, by rw [Phrase.isSuccess_ofLength, if_neg (by simp)]⟩

/-! ## References

A callback that leaves a rule alone on the way down, and on the way up leaves its phrase or rejects it, only takes
notes and judges.  The bundled callbacks are all of this kind. -/

end Lexicon

/-- **A callback keeps a phrase or rejects it,** and does not decide on the way down. -/
def Callback.Judges {D : Type} (f : Callback D) : Prop :=
  ∀ p input o d, (f p input o d).1 = p ∨ (p.state ≠ .active ∧ (f p input o d).1 = .fail)

namespace Callback

variable {D : Type}

theorem judges_onMatch (note : Array Char → Nat → Nat → D → D) : (onMatch note).Judges := fun _ _ _ _ => .inl rfl

theorem judges_onSuccess (note : Array Char → Nat → Nat → D → D) : (onSuccess note).Judges := fun _ _ _ _ => .inl rfl

theorem judges_onEntry (prepare : D → D) : (onEntry prepare).Judges := fun _ _ _ _ => .inl rfl

theorem judges_judging (prepare : D → D) (holds : D → Bool) : (judging prepare holds).Judges := by
  intro p input o d
  unfold judging
  cases hs : p.state with
  | matched =>
    dsimp only
    by_cases hd : holds d
    · exact .inl (if_pos hd)
    · exact .inr ⟨by simp, if_neg hd⟩
  | _ => exact .inl rfl

end Callback

namespace Lexicon

variable {D : Type} {l : Lexicon D} {e : Expr} {es : List Expr} {pre x post : Text} {d d' : D} {name : Text} {f : Callback D}

/-- **What a name stands for:** a rule with this expression and this callback. -/
def Defines (l : Lexicon D) (name : Text) (body : Expr) (callback : Option (Callback D)) : Prop :=
  ∃ id n, l.resolve name = some (.rule id) ∧ l.rules[id.index]? = some (n, body) ∧ l.onRule id = callback

theorem outcome_of_defines (h : l.Defines name e none) (input : Array Char) (o : Nat) (d : D) :
    l.outcome input (.rnm name) o d = l.outcome input e o d := by
  obtain ⟨id, n, hid, hbody, hnone⟩ := h
  rw [outcome_eq, apply, callName, hid]
  dsimp only
  rw [callRule, hbody, hnone]

theorem takes_rnm (h : l.Defines name e none) : l.Takes (.rnm name) pre x post d d' ↔ l.Takes e pre x post d d' := by
  rw [Takes, outcome_of_defines h, Takes]

theorem refuses_rnm (h : l.Defines name e none) : l.Refuses (.rnm name) pre post d d' ↔ l.Refuses e pre post d d' := by
  rw [Refuses, outcome_of_defines h, Refuses]

theorem settle_ofLength {name : Text} {remaining n : Nat} {descending : Bool} (h : n ≤ remaining) :
    Engine.settle name remaining descending (.ofLength n) = .ok (.ofLength n) := by
  unfold Engine.settle
  rw [Phrase.length_ofLength, if_neg (Nat.not_lt.2 h)]
  cases n with
  | zero => rfl
  | succ n => rfl

theorem settle_fail (name : Text) (remaining : Nat) (descending : Bool) :
    Engine.settle name remaining descending .fail = .ok .fail :=
  if_neg (Nat.not_lt.2 (Nat.zero_le _))

/-- **A rule with a callback that judges:** the callback prepares the data, the expression is run, and what it comes to
is what the callback makes of it. -/
theorem outcome_of_judges (h : l.Defines name e (some f)) (hf : f.Judges) (input : Array Char) {o : Nat}
    (ho : o ≤ input.size) (d : D) :
    l.outcome input (.rnm name) o d = (l.outcome input e o (f .undecided input o d).2).andThen fun p d =>
      .ended (f p input o d).1 (f p input o d).2 := by
  obtain ⟨id, n, hid, hbody, hsome⟩ := h
  have hdown : (f .undecided input o d).1 = .undecided := (hf .undecided input o d).resolve_right fun h => h.1 rfl
  have hsettle : Engine.settle n (input.size - o) true .undecided = .ok .undecided :=
    if_neg (Nat.not_lt.2 (Nat.zero_le _))
  rw [outcome_eq, apply, callName, hid]
  dsimp only
  rw [callRule, hbody, hsome]
  dsimp only
  rw [ask, hdown, hsettle, Outcome.andThen]
  refine (if_pos rfl).trans ?_
  cases hx : l.outcome input e o (f .undecided input o d).2 with
  | ended p d₁ =>
    have hfits := fits_outcome hx ho
    have hlen : p.length ≤ input.size - o := by have := hfits.2; omega
    have hp : p = .fail ∨ p = .ofLength p.length := by
      by_cases hs : p.state = .noMatch
      · exact .inl (Phrase.eq_fail_of_settled hfits.1 hs)
      · exact .inr (Phrase.eq_ofLength_of_settled hfits.1 hs)
    have hup : Engine.settle n (input.size - o) false (f p input o d₁).1 = .ok (f p input o d₁).1 := by
      rcases hf p input o d₁ with hsame | ⟨-, hfail⟩
      · rw [hsame]
        rcases hp with rfl | hp
        · exact settle_fail _ _ _
        · rw [hp]
          exact settle_ofLength hlen
      · rw [hfail]
        exact settle_fail _ _ _
    rw [Outcome.andThen, Outcome.andThen, ask, hup]
  | broken e d₁ => rfl
  | stuck => rfl
  | starved => rfl

theorem takes_rnm_judged (h : l.Defines name e (some f)) (hf : f.Judges) : l.Takes (.rnm name) pre x post d d' ↔
    ∃ d₁, l.Takes e pre x post (f .undecided (pre ++ (x ++ post)).toArray pre.length d).2 d₁ ∧
      f (.ofLength x.length) (pre ++ (x ++ post)).toArray pre.length d₁ = (.ofLength x.length, d') := by
  rw [Takes, outcome_of_judges h hf _ (by simp), Outcome.andThen_eq_ended]
  constructor
  · rintro ⟨p, d₁, hp, hd⟩
    rw [Outcome.ended.injEq] at hd
    have heq : p = .ofLength x.length := by
      rcases hf p (pre ++ (x ++ post)).toArray pre.length d₁ with hsame | ⟨-, hfail⟩
      · rw [← hsame, hd.1]
      · rw [hfail] at hd
        exact absurd hd.1.symm (Phrase.ofLength_ne_fail _)
    subst heq
    exact ⟨d₁, hp, Prod.ext hd.1 hd.2⟩
  · rintro ⟨d₁, htakes, hd⟩
    exact ⟨_, d₁, htakes, by rw [hd]⟩

theorem refuses_rnm_judged (h : l.Defines name e (some f)) (hf : f.Judges) : l.Refuses (.rnm name) pre post d d' ↔
    (∃ d₁, l.Refuses e pre post (f .undecided (pre ++ post).toArray pre.length d).2 d₁ ∧
      (f .fail (pre ++ post).toArray pre.length d₁).2 = d') ∨
    ∃ x rest d₁, post = x ++ rest ∧ l.Takes e pre x rest (f .undecided (pre ++ post).toArray pre.length d).2 d₁ ∧
      f (.ofLength x.length) (pre ++ post).toArray pre.length d₁ = (.fail, d') := by
  rw [Refuses, outcome_of_judges h hf _ (by simp), Outcome.andThen_eq_ended]
  constructor
  · rintro ⟨p, d₁, hp, hd⟩
    rw [Outcome.ended.injEq] at hd
    rcases taken_or_refused hp with ⟨-, rfl, href⟩ | ⟨-, x, rest, hx, rfl, htakes⟩
    · exact .inl ⟨d₁, href, hd.2⟩
    · exact .inr ⟨x, rest, d₁, hx, htakes, Prod.ext hd.1 hd.2⟩
  · rintro (⟨d₁, href, hd⟩ | ⟨x, rest, d₁, rfl, htakes, hd⟩)
    · refine ⟨_, d₁, href, ?_⟩
      rcases hf .fail (pre ++ post).toArray pre.length d₁ with hsame | ⟨-, hfail⟩
      · rw [hsame, hd]
      · rw [hfail, hd]
    · exact ⟨_, d₁, htakes, by rw [hd]⟩

theorem takes_rnm_onMatch {note : Array Char → Nat → Nat → D → D} (h : l.Defines name e (some (.onMatch note))) :
    l.Takes (.rnm name) pre x post d d' ↔ ∃ d₁, l.Takes e pre x post d d₁ ∧
      (if x = [] then d₁ else note (pre ++ (x ++ post)).toArray pre.length x.length d₁) = d' := by
  rw [takes_rnm_judged h (Callback.judges_onMatch note)]
  simp [Callback.onMatch, Phrase.undecided]

/-- A rule whose callback notes a match refuses where its expression does. -/
theorem refuses_rnm_onMatch {note : Array Char → Nat → Nat → D → D} (h : l.Defines name e (some (.onMatch note))) :
    l.Refuses (.rnm name) pre post d d' ↔ l.Refuses e pre post d d' := by
  rw [refuses_rnm_judged h (Callback.judges_onMatch note)]
  have hfail : Phrase.fail.state ≠ .matched := by decide
  simp [Callback.onMatch, Phrase.undecided, hfail, Phrase.ofLength_ne_fail]

theorem takes_rnm_onSuccess {note : Array Char → Nat → Nat → D → D} (h : l.Defines name e (some (.onSuccess note))) :
    l.Takes (.rnm name) pre x post d d' ↔ ∃ d₁, l.Takes e pre x post d d₁ ∧
      note (pre ++ (x ++ post)).toArray pre.length x.length d₁ = d' := by
  rw [takes_rnm_judged h (Callback.judges_onSuccess note)]
  have hdown : Phrase.undecided.isSuccess = false := rfl
  simp [Callback.onSuccess, hdown]

theorem refuses_rnm_onSuccess {note : Array Char → Nat → Nat → D → D} (h : l.Defines name e (some (.onSuccess note))) :
    l.Refuses (.rnm name) pre post d d' ↔ l.Refuses e pre post d d' := by
  have hdown : Phrase.undecided.isSuccess = false := rfl
  have hfail : Phrase.fail.isSuccess = false := rfl
  rw [refuses_rnm_judged h (Callback.judges_onSuccess note)]
  simp [Callback.onSuccess, hdown, hfail, Phrase.ofLength_ne_fail]

theorem takes_rnm_onEntry {prepare : D → D} (h : l.Defines name e (some (.onEntry prepare))) :
    l.Takes (.rnm name) pre x post d d' ↔ l.Takes e pre x post (prepare d) d' := by
  rw [takes_rnm_judged h (Callback.judges_onEntry prepare)]
  have hup : (Phrase.ofLength x.length).state ≠ .active := (Phrase.settled_ofLength _).1
  simp [Callback.onEntry, Phrase.undecided, hup]

theorem refuses_rnm_onEntry {prepare : D → D} (h : l.Defines name e (some (.onEntry prepare))) :
    l.Refuses (.rnm name) pre post d d' ↔ l.Refuses e pre post (prepare d) d' := by
  have hfail : Phrase.fail.state ≠ .active := by decide
  rw [refuses_rnm_judged h (Callback.judges_onEntry prepare)]
  simp [Callback.onEntry, Phrase.undecided, hfail, Phrase.ofLength_ne_fail]

/-- A rule whose callback prepares the data and judges a match by them. -/
theorem takes_rnm_judging {prepare : D → D} {holds : D → Bool} (h : l.Defines name e (some (.judging prepare holds))) :
    l.Takes (.rnm name) pre x post d d' ↔ l.Takes e pre x post (prepare d) d' ∧ (x ≠ [] → holds d' = true) := by
  have hdown : (Callback.judging prepare holds .undecided (pre ++ (x ++ post)).toArray pre.length d).2 = prepare d := rfl
  have hup : ∀ d₁, Callback.judging prepare holds (.ofLength x.length) (pre ++ (x ++ post)).toArray pre.length d₁ =
      (if x ≠ [] → holds d₁ = true then .ofLength x.length else .fail, d₁) := by
    intro d₁
    by_cases hx : x = []
    · subst hx
      rw [if_pos fun h => absurd rfl h]
      rfl
    · have hmatched : (Phrase.ofLength x.length).state = .matched := by simpa using hx
      simp only [Callback.judging, hmatched, ne_eq, hx, not_false_eq_true, forall_const]
  rw [takes_rnm_judged h (Callback.judges_judging _ _), hdown]
  simp only [hup, Prod.mk.injEq]
  constructor
  · rintro ⟨d₁, htakes, hpass, rfl⟩
    refine ⟨htakes, ?_⟩
    by_contra hno
    rw [if_neg hno] at hpass
    exact Phrase.ofLength_ne_fail _ hpass.symm
  · rintro ⟨htakes, hpass⟩
    exact ⟨d', htakes, if_pos hpass, rfl⟩

end Lexicon
end SignIn
