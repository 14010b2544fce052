import SignIn.Proofs.Expr.Takes
/-!
# Texts that repetitions take

`Lexicon.Many` is a repetition round by round: the texts of the rounds that matched, in their order, and how it came to
its end.  What is compared with the bounds is what the counter shows of the number of rounds.  A repetition of at most
one is an option.
-/
namespace SignIn
namespace Lexicon

variable {D : Type} {l : Lexicon D} {e : Expr} {es : List Expr} {min : Nat} {max : Option Nat} {pre x post : Text}
  {d d' : D}

/-- **The rounds of a repetition,** after some that matched: the texts they take, and whether the last round was an empty
match. -/
inductive Many (l : Lexicon D) (e : Expr) (max : Option Nat) :
    Nat → Text → List Text → Text → D → D → Bool → Prop where
  | atEnd {done pre d} : Many l e max done pre [] [] d d false
  | atMax {done pre post d} (most : max = some (l.counter.shows done)) : Many l e max done pre [] post d d false
  | refused {done pre post d d'} (before : post ≠ []) (below : max ≠ some (l.counter.shows done))
    (here : l.Refuses e pre post d d') : Many l e max done pre [] post d d' false
  | emptied {done pre post d d'} (before : post ≠ []) (below : max ≠ some (l.counter.shows done))
    (here : l.Takes e pre [] post d d') : Many l e max done pre [] post d d' true
  | more {done pre x xs post d d₁ d' b} (below : max ≠ some (l.counter.shows done)) (filled : x ≠ [])
      (here : l.Takes e pre x (xs.flatten ++ post) d d₁) (rest : Many l e max (done + 1) (pre ++ x) xs post d₁ d' b) :
    Many l e max done pre (x :: xs) post d d' b

theorem many_of_repetition {whole : Text} {o : Nat} {p : Phrase} : ∀ {budget count n : Nat} {pre s : Text} {d : D},
    pre ++ s = whole → pre.length = o + n → s.length ≤ budget → max ≠ some (l.counter.shows count) →
    Engine.repetition l.counter (fun n => l.outcome whole.toArray e (o + n)) min max (whole.length - o) budget
      (l.counter.shows count) n d = .ended p d' →
    ∃ xs post b, s = xs.flatten ++ post ∧ l.Many e max count pre xs post d d' b ∧
      p = if b = true ∨ min ≤ l.counter.shows (count + xs.length) then .ofLength (n + xs.flatten.length) else .fail
  | 0, count, n, pre, s, d, _, _, hb, _, h => by
    cases h
    obtain rfl := List.length_eq_zero_iff.1 (Nat.le_zero.1 hb)
    exact ⟨[], [], false, rfl, .atEnd, by simp [Engine.repeated]⟩
  | budget + 1, count, n, pre, s, d, rfl, hn, hb, hmax, h => by
    unfold Engine.repetition at h
    have havail : (pre ++ s).length - o = n + s.length := by rw [List.length_append]; omega
    rw [havail] at h
    by_cases hs : s = []
    · subst hs
      rw [if_pos (by simp)] at h
      cases h
      exact ⟨[], [], false, rfl, .atEnd, by simp [Engine.repeated]⟩
    have hpos := List.length_pos_of_ne_nil hs
    rw [if_neg (by omega), Outcome.andThen_eq_ended, ← hn] at h
    obtain ⟨q, d₁, hq, h⟩ := h
    rcases taken_or_refused hq with ⟨-, rfl, href⟩ | ⟨-, x, rest, rfl, rfl, htakes⟩
    · cases h
      exact ⟨[], s, false, rfl, .refused hs hmax href, by simp [Engine.repeated]⟩
    by_cases hx : x = []
    · subst hx
      cases h
      exact ⟨[], rest, true, rfl, .emptied hs hmax htakes, by simp⟩
    have hmatched : (Phrase.ofLength x.length).state = .matched := by simp [hx]
    simp only [hmatched, Phrase.length_ofLength, Counter.next_shows] at h
    by_cases hmax' : max = some (l.counter.shows (count + 1))
    · rw [if_pos hmax'] at h
      cases h
      refine ⟨[x], rest, false, by simp, .more hmax hx (by simpa using htakes) (.atMax hmax'), ?_⟩
      simp [Engine.repeated]
    · rw [if_neg hmax', ← havail] at h
      have hlen : rest.length ≤ budget := by
        have := List.length_pos_of_ne_nil hx
        rw [List.length_append] at hb
        omega
      obtain ⟨xs, post, b, rfl, hmany, rfl⟩ := many_of_repetition (List.append_assoc pre x rest)
        (by rw [List.length_append]; omega) hlen hmax' h
      refine ⟨x :: xs, post, b, by simp, .more hmax hx htakes hmany, ?_⟩
      simp only [List.length_cons, List.flatten_cons, List.length_append, Nat.add_assoc, Nat.add_comm 1]

theorem repetition_of_many {whole : Text} {o count : Nat} {pre post : Text} {xs : List Text} {d d' : D} {b : Bool}
    (h : l.Many e max count pre xs post d d' b) : ∀ {budget n : Nat}, pre ++ (xs.flatten ++ post) = whole →
    pre.length = o + n → (xs.flatten ++ post).length ≤ budget → max ≠ some (l.counter.shows count) →
    Engine.repetition l.counter (fun n => l.outcome whole.toArray e (o + n)) min max (whole.length - o) budget
      (l.counter.shows count) n d =
      .ended (if b = true ∨ min ≤ l.counter.shows (count + xs.length) then .ofLength (n + xs.flatten.length) else .fail)
        d' := by
  induction h with
  | atEnd =>
    intro budget n hw hn hb hmax
    subst hw
    cases budget with
    | zero => simp [Engine.repetition, Engine.repeated]
    | succ budget =>
      rw [Engine.repetition, if_pos (by simp; omega)]
      simp [Engine.repeated]
  | atMax most =>
    intro budget n hw hn hb hmax
    exact absurd most hmax
  | refused before below here =>
    intro budget n hw hn hb hmax
    subst hw
    have hpos := List.length_pos_of_ne_nil before
    obtain ⟨budget, rfl⟩ : ∃ k, budget = k + 1 := ⟨budget - 1, by simp at hb; omega⟩
    rw [Engine.repetition, if_neg (by simp; omega), ← hn]
    simp only [List.flatten_nil, List.nil_append]
    rw [show _ = _ from here]
    simp [Outcome.andThen, Phrase.fail, Engine.repeated]
  | emptied before below here =>
    intro budget n hw hn hb hmax
    subst hw
    have hpos := List.length_pos_of_ne_nil before
    obtain ⟨budget, rfl⟩ : ∃ k, budget = k + 1 := ⟨budget - 1, by simp at hb; omega⟩
    rw [Engine.repetition, if_neg (by simp; omega), ← hn]
    simp only [List.flatten_nil]
    rw [show _ = _ from here]
    simp [Outcome.andThen, Phrase.empty]
  | @more done pre x xs post d d₁ d' b below filled here rest ih =>
    intro budget n hw hn hb hmax
    subst hw
    have hpos := List.length_pos_of_ne_nil filled
    obtain ⟨budget, rfl⟩ : ∃ k, budget = k + 1 := ⟨budget - 1, by simp at hb; omega⟩
    have hmatched : (Phrase.ofLength x.length).state = .matched := by simp [filled]
    have hih := @ih budget (n + x.length) (by simp) (by rw [List.length_append]; omega)
      (by simp at hb ⊢; omega)
    simp only [List.flatten_cons, List.append_assoc] at hih
    rw [List.flatten_cons, List.append_assoc, Engine.repetition, if_neg (by simp; omega), ← hn, show _ = _ from here]
    simp only [Outcome.andThen, hmatched, Phrase.length_ofLength, Counter.next_shows]
    by_cases hmax' : max = some (l.counter.shows (done + 1))
    · -- the last round that is allowed: what follows it can only be the end
      rw [if_pos hmax']
      cases rest with
      | atEnd => simp [Engine.repeated]
      | atMax => simp [Engine.repeated]
      | refused _ below => exact absurd hmax' below
      | emptied _ below => exact absurd hmax' below
      | more below => exact absurd hmax' below
    · rw [if_neg hmax', hih hmax']
      simp only [List.length_cons, List.length_append, Nat.add_assoc, Nat.add_comm 1]

/-- A repetition begins its rounds with a counter that shows none. -/
theorem outcome_rep (hmax : max ≠ some 0) (input : Array Char) (o : Nat) (d : D) :
    l.outcome input (.rep min max e) o d =
      Engine.repetition l.counter (fun n => l.outcome input e (o + n)) min max (input.size - o) (input.size - o)
        (l.counter.shows 0) 0 d := by
  rw [outcome_eq, apply, if_neg hmax, Counter.shows_zero]

theorem takes_rep (hmax : max ≠ some 0) : l.Takes (.rep min max e) pre x post d d' ↔
    ∃ xs b, xs.flatten = x ∧ l.Many e max 0 pre xs post d d' b ∧ (b = true ∨ min ≤ l.counter.shows xs.length) := by
  have hmax0 : max ≠ some (l.counter.shows 0) := by rwa [Counter.shows_zero]
  rw [Takes, outcome_rep hmax]
  constructor
  · intro h
    obtain ⟨xs, post', b, hs, hmany, hp⟩ := many_of_repetition rfl (Nat.add_zero _).symm (by simp) hmax0 h
    by_cases hc : b = true ∨ min ≤ l.counter.shows xs.length
    · rw [Nat.zero_add, if_pos hc, Nat.zero_add, Phrase.ofLength_inj] at hp
      obtain ⟨rfl, rfl⟩ := List.append_inj hs hp
      exact ⟨xs, b, rfl, hmany, hc⟩
    · rw [Nat.zero_add, if_neg hc] at hp
      exact absurd hp (Phrase.ofLength_ne_fail _)
  · rintro ⟨xs, b, rfl, hmany, hc⟩
    refine (repetition_of_many hmany rfl (Nat.add_zero _).symm (by simp) hmax0).trans ?_
    rw [Nat.zero_add, if_pos hc, Nat.zero_add]

theorem refuses_rep (hmax : max ≠ some 0) : l.Refuses (.rep min max e) pre post d d' ↔
    ∃ xs rest, post = xs.flatten ++ rest ∧ l.Many e max 0 pre xs rest d d' false ∧ l.counter.shows xs.length < min := by
  have hmax0 : max ≠ some (l.counter.shows 0) := by rwa [Counter.shows_zero]
  rw [Refuses, outcome_rep hmax]
  constructor
  · intro h
    obtain ⟨xs, rest, b, rfl, hmany, hp⟩ := many_of_repetition rfl (Nat.add_zero _).symm (by simp) hmax0 h
    rw [Nat.zero_add] at hp
    by_cases hc : b = true ∨ min ≤ l.counter.shows xs.length
    · rw [if_pos hc] at hp
      exact absurd hp.symm (Phrase.ofLength_ne_fail _)
    · rw [not_or, Bool.not_eq_true, Nat.not_le] at hc
      obtain ⟨rfl, hlt⟩ := hc
      exact ⟨xs, rest, rfl, hmany, hlt⟩
  · rintro ⟨xs, rest, rfl, hmany, hlt⟩
    refine (repetition_of_many hmany rfl (Nat.add_zero _).symm (by simp) hmax0).trans ?_
    rw [Nat.zero_add, if_neg (by simpa using hlt)]

/-- **A lexicon counts exactly.** -/
class Exact (l : Lexicon D) : Prop where
  counter_eq : l.counter = .exact

@[simp] theorem shows_counter [l.Exact] (n : Nat) : l.counter.shows n = n := by
  rw [Exact.counter_eq (l := l), Counter.shows_exact]

theorem holds_counter [l.Exact] (n : Nat) : l.counter.Holds n := by
  rw [Exact.counter_eq (l := l)]
  trivial

/-! ## As many as there are

Up to the end of the input, a repetition of what is taken in one way wherever it stands is any number of it. -/

theorem many_of_forall {P : Text → Prop} (he : ∀ {pre x post d d'}, l.Takes e pre x post d d' ↔ P x ∧ d' = d)
    (hne : ∀ x, P x → x ≠ []) : ∀ (xs : List Text) (done : Nat) (pre : Text) (d : D), (∀ y ∈ xs, P y) →
      l.Many e none done pre xs [] d d false
  | [], _, _, _, _ => .atEnd
  | y :: xs, done, pre, d, h => by
    rw [List.forall_mem_cons] at h
    exact .more (by simp) (hne y h.1) (he.2 ⟨h.1, rfl⟩) (many_of_forall he hne xs (done + 1) (pre ++ y) d h.2)

theorem forall_of_many_end {P : Text → Prop} (he : ∀ {pre x post d d'}, l.Takes e pre x post d d' ↔ P x ∧ d' = d)
    {done : Nat} {xs : List Text} {b : Bool} (h : l.Many e max done pre xs post d d' b) : post = [] →
    (∀ y ∈ xs, P y) ∧ d' = d := by
  induction h with
  | atEnd => simp
  | atMax => simp
  | refused before => exact fun hpost => absurd hpost before
  | emptied before => exact fun hpost => absurd hpost before
  | more _ _ here _ ih =>
    intro hpost
    obtain ⟨hx, rfl⟩ := he.1 here
    obtain ⟨hxs, rfl⟩ := ih hpost
    exact ⟨List.forall_mem_cons.2 ⟨hx, hxs⟩, rfl⟩

theorem takes_star_end {P : Text → Prop} (he : ∀ {pre x post d d'}, l.Takes e pre x post d d' ↔ P x ∧ d' = d)
    (hne : ∀ x, P x → x ≠ []) :
    l.Takes (.star e) pre x [] d d' ↔ (∃ xs : List Text, x = xs.flatten ∧ ∀ y ∈ xs, P y) ∧ d' = d := by
  rw [Expr.star, takes_rep (by simp)]
  constructor
  · rintro ⟨xs, b, rfl, hmany, -⟩
    obtain ⟨hxs, rfl⟩ := forall_of_many_end he hmany rfl
    exact ⟨⟨xs, rfl, hxs⟩, rfl⟩
  · rintro ⟨⟨xs, rfl, hxs⟩, rfl⟩
    exact ⟨xs, false, rfl, many_of_forall he hne xs 0 pre _ hxs, .inr (Nat.zero_le _)⟩

/-! ## At most one -/

theorem takes_opt : l.Takes (.opt e) pre x post d d' ↔ (x = [] ∧ post = [] ∧ d' = d) ∨
    (x ++ post ≠ [] ∧ (l.Takes e pre x post d d' ∨ (x = [] ∧ l.Refuses e pre post d d'))) := by
  rw [Expr.opt, takes_rep (by simp)]
  constructor
  · rintro ⟨xs, b, rfl, hmany, -⟩
    cases hmany with
    | atEnd => exact .inl ⟨rfl, rfl, rfl⟩
    | atMax most => simp at most
    | refused before _ here => exact .inr ⟨before, .inr ⟨rfl, here⟩⟩
    | emptied before _ here => exact .inr ⟨before, .inl here⟩
    | more _ filled here rest =>
      cases rest with
      | atEnd => exact .inr ⟨by simp [filled], .inl (by simpa using here)⟩
      | atMax => exact .inr ⟨by simp [filled], .inl (by simpa using here)⟩
      | refused _ below => exact absurd (by simp) below
      | emptied _ below => exact absurd (by simp) below
      | more below => exact absurd (by simp) below
  · rintro (⟨rfl, rfl, rfl⟩ | ⟨hne, h | ⟨rfl, h⟩⟩)
    · exact ⟨[], false, rfl, .atEnd, .inr (Nat.zero_le _)⟩
    · by_cases hx : x = []
      · subst hx
        exact ⟨[], true, rfl, .emptied hne (by simp) h, .inl rfl⟩
      · exact ⟨[x], false, by simp, .more (by simp) hx (by simpa using h) (.atMax (by simp)), .inr (Nat.zero_le _)⟩
    · exact ⟨[], false, rfl, .refused hne (by simp) h, .inr (Nat.zero_le _)⟩

/-! ## What never refuses -/

/-- **An expression that never refuses.** -/
def Unfailing (l : Lexicon D) (e : Expr) : Prop := ∀ ⦃pre post d d'⦄, ¬ l.Refuses e pre post d d'

theorem unfailing_rep (hmax : max ≠ some 0) : l.Unfailing (.rep 0 max e) := by
  intro pre post d d' h
  obtain ⟨xs, rest, -, -, hfew⟩ := (refuses_rep hmax).1 h
  exact Nat.not_lt_zero _ hfew

theorem unfailing_star : l.Unfailing (.star e) := unfailing_rep (by simp)

theorem unfailing_opt : l.Unfailing (.opt e) := unfailing_rep (by simp)

variable {name : Text} {f : Callback D}

theorem Unfailing.rnm (h : l.Unfailing e) (hdef : l.Defines name e none) : l.Unfailing (.rnm name) :=
  fun _ _ _ _ href => h ((refuses_rnm hdef).1 href)

end Lexicon
end SignIn
