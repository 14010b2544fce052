import SignIn.Proofs.Expr.Repeats
import SignIn.Proofs.Text.Characters
/-!
# Classes of characters

The bundled rules write a class of characters as a range or as a choice of ranges, and mostly repeat it.  What such an
expression takes is told of characters: a class takes one of them, a repetition as many as there are.
-/
namespace SignIn
namespace Lexicon

variable {D : Type} {l : Lexicon D} {e : Expr} {es : List Expr} {min : Nat} {max : Option Nat} {pre x post : Text}
  {d d' : D}

/-- **An expression is a class of characters:** it takes one of them, and refuses at anything else. -/
structure Class (l : Lexicon D) (e : Expr) (P : Char → Prop) : Prop where
  takes : ∀ {pre x post d d'}, l.Takes e pre x post d d' ↔ (∃ c, x = [c] ∧ P c) ∧ d' = d
  refuses : ∀ {pre post d d'}, l.Refuses e pre post d d' ↔ (∀ c, post.head? = some c → ¬ P c) ∧ d' = d

theorem class_trg (lo hi : Nat) : l.Class (.trg lo hi) fun c => lo ≤ c.toNat ∧ c.toNat ≤ hi := by
  have hat : ∀ (pre post : Text), (pre ++ post).toArray[pre.length]? = post.head? := fun pre post => by
    rw [getElem?_eq_head?, List.toList_toArray, List.drop_left]
  constructor
  · intro pre x post d d'
    rw [Takes, outcome_eq, apply, Outcome.ended.injEq, Engine.range, hat]
    constructor
    · rintro ⟨h, rfl⟩
      refine ⟨?_, rfl⟩
      cases hc : (x ++ post).head? with
      | none =>
        rw [hc] at h
        exact absurd h.symm (Phrase.ofLength_ne_fail _)
      | some c =>
        simp only [hc] at h
        by_cases hP : lo ≤ c.toNat ∧ c.toNat ≤ hi
        · rw [if_pos hP, Phrase.ofLength_inj] at h
          obtain ⟨c', rfl⟩ := List.length_eq_one_iff.1 h.symm
          obtain rfl : c' = c := by simpa using hc
          exact ⟨c', rfl, hP⟩
        · rw [if_neg hP] at h
          exact absurd h.symm (Phrase.ofLength_ne_fail _)
    · rintro ⟨⟨c, rfl, hP⟩, rfl⟩
      exact ⟨if_pos hP, rfl⟩
  · intro pre post d d'
    rw [Refuses, outcome_eq, apply, Outcome.ended.injEq, Engine.range, hat]
    constructor
    · rintro ⟨h, rfl⟩
      refine ⟨fun c hc hP => ?_, rfl⟩
      simp only [hc, if_pos hP] at h
      exact Phrase.ofLength_ne_fail _ h
    · rintro ⟨h, rfl⟩
      refine ⟨?_, rfl⟩
      cases hc : post.head? with
      | none => rfl
      | some c => exact if_neg (h c hc)

/-- **A single character** is a class. -/
theorem class_ch (k : Char) : l.Class (.ch k.toNat) (· = k) where
  takes := by
    intro pre x post d d'
    rw [Expr.ch, (class_trg _ _).takes]
    simp only [← Nat.le_antisymm_iff, eq_comm (a := k.toNat), Char.toNat_inj]
  refuses := by
    intro pre post d d'
    rw [Expr.ch, (class_trg _ _).refuses]
    simp only [← Nat.le_antisymm_iff, eq_comm (a := k.toNat), Char.toNat_inj]

theorem class_alt_nil : l.Class (.alt []) fun _ => False := by
  constructor
  · intro pre x post d d'
    exact ⟨fun h => absurd h takes_alt_nil, fun ⟨⟨_, _, h⟩, _⟩ => h.elim⟩
  · intro pre post d d'
    rw [refuses_alt_nil]
    exact ⟨fun h => ⟨fun _ _ => id, h⟩, fun h => h.2⟩

/-- **A choice of classes** is a class. -/
theorem class_alt_cons {P Q : Char → Prop} (hP : l.Class e P) (hQ : l.Class (.alt es) Q) :
    l.Class (.alt (e :: es)) fun c => P c ∨ Q c := by
  constructor
  · intro pre x post d d'
    rw [takes_alt_cons, hP.takes]
    constructor
    · rintro (⟨⟨c, rfl, h⟩, rfl⟩ | ⟨d₁, href, htakes⟩)
      · exact ⟨⟨c, rfl, .inl h⟩, rfl⟩
      · obtain ⟨-, rfl⟩ := hP.refuses.1 href
        obtain ⟨⟨c, rfl, h⟩, rfl⟩ := hQ.takes.1 htakes
        exact ⟨⟨c, rfl, .inr h⟩, rfl⟩
    · rintro ⟨⟨c, rfl, h⟩, rfl⟩
      by_cases hc : P c
      · exact .inl ⟨⟨c, rfl, hc⟩, rfl⟩
      · refine .inr ⟨_, hP.refuses.2 ⟨fun c' hc' => ?_, rfl⟩, hQ.takes.2 ⟨⟨c, rfl, h.resolve_left hc⟩, rfl⟩⟩
        obtain rfl : c = c' := by simpa using hc'
        exact hc
  · intro pre post d d'
    rw [refuses_alt_cons]
    constructor
    · rintro ⟨d₁, h, h'⟩
      obtain ⟨hp, rfl⟩ := hP.refuses.1 h
      obtain ⟨hq, rfl⟩ := hQ.refuses.1 h'
      exact ⟨fun c hc => not_or.2 ⟨hp c hc, hq c hc⟩, rfl⟩
    · rintro ⟨h, rfl⟩
      exact ⟨_, hP.refuses.2 ⟨fun c hc hp => h c hc (.inl hp), rfl⟩, hQ.refuses.2 ⟨fun c hc hq => h c hc (.inr hq), rfl⟩⟩

theorem Class.congr {P Q : Char → Prop} (h : l.Class e P) (hPQ : ∀ c, P c ↔ Q c) : l.Class e Q := by
  rwa [show Q = P from funext fun c => propext (hPQ c).symm]

/-- A choice of ranges. -/
theorem class_ranges : ∀ ranges : List (Nat × Nat),
    l.Class (.alt (ranges.map fun r => .trg r.1 r.2)) fun c => ∃ r ∈ ranges, r.1 ≤ c.toNat ∧ c.toNat ≤ r.2
  | [] => class_alt_nil.congr fun c => by simp
  | r :: ranges => (class_alt_cons (class_trg r.1 r.2) (class_ranges ranges)).congr fun c => by simp

/-- A name stands for the class that its rule is. -/
theorem Class.rnm {name : Text} {P : Char → Prop} (h : l.Class e P) (hdef : l.Defines name e none) :
    l.Class (.rnm name) P where
  takes := by
    intro pre x post d d'
    rw [takes_rnm hdef, h.takes]
  refuses := by
    intro pre post d d'
    rw [refuses_rnm hdef, h.refuses]

/-- **One character in any case** is a class. -/
theorem class_folded (k : Char) : l.Class (.tls [k]) fun c => c.toLower = k.toLower where
  takes := by
    intro pre x post d d'
    rw [takes_tls, foldCase, foldCase, List.map_singleton, List.map_eq_singleton_iff]
  refuses := by
    intro pre post d d'
    rw [refuses_tls]
    cases post with
    | nil => simp [foldCase]
    | cons c post => simp [foldCase]

/-- A literal in any case that is no letter is itself. -/
theorem class_tls {k : Char} (hk : k.isAlpha = false) : l.Class (.tls [k]) (· = k) :=
  (class_folded k).congr fun c => by rw [(toLower_eq_iff hk).2 rfl, toLower_eq_iff hk]

/-! ## Repetitions of a class

A rule whose callback notes each character of a class, is repeated like the class, and the notes are made in order. -/

/-- **An expression scans a class of characters:** it takes one of them and notes it, and refuses at anything else. -/
structure Scans (l : Lexicon D) (e : Expr) (P : Char → Prop) (note : D → Char → D) : Prop where
  takes : ∀ {pre x post d d'}, l.Takes e pre x post d d' ↔ ∃ c, x = [c] ∧ P c ∧ d' = note d c
  refuses : ∀ {pre post d d'}, l.Refuses e pre post d d' ↔ (∀ c, post.head? = some c → ¬ P c) ∧ d' = d

theorem Class.scans {P : Char → Prop} (h : l.Class e P) : l.Scans e P fun d _ => d where
  takes := by
    intro pre x post d d'
    simp only [h.takes, ← and_assoc, exists_and_right]
  refuses := h.refuses

section

variable {P : Char → Prop} {note : D → Char → D}

theorem many_of_scans (h : l.Scans e P note) (hm : ∀ m, max = some m → l.counter.Holds m) :
    ∀ {x : Text} {done : Nat} {pre post : Text} {d : D},
    (∀ c ∈ x, P c) → (∀ m, max = some m → done + x.length ≤ m) →
    (max = some (done + x.length) ∨ ∀ c, post.head? = some c → ¬ P c) →
    l.Many e max done pre (x.map fun c => [c]) post d (x.foldl note d) false
  | [], done, pre, post, d, _, hle, hstop => by
    by_cases hmax : max = some done
    · exact .atMax (by rw [(hm done hmax).shows_eq, hmax])
    · cases post with
      | nil => exact .atEnd
      | cons c post =>
        refine .refused (List.cons_ne_nil _ _) (fun hshown => hmax ?_) (h.refuses.2 ⟨hstop.resolve_left ?_, rfl⟩)
        · -- a counter shows no more than there are, and the bound is no less
          rw [hshown, Nat.le_antisymm (l.counter.shows_le done) (hle _ hshown)]
        · simpa using hmax
  | c :: x, done, pre, post, d, hx, hle, hstop => by
    rw [List.length_cons, Nat.add_comm x.length, ← Nat.add_assoc] at hle hstop
    refine .more (fun hshown => ?_) (List.cons_ne_nil _ _) (h.takes.2 ⟨c, rfl, hx c List.mem_cons_self, rfl⟩)
      (many_of_scans h hm (fun c' hc' => hx c' (List.mem_cons_of_mem _ hc')) hle hstop)
    have := hle _ hshown
    have := l.counter.shows_le done
    omega

theorem scans_of_many (h : l.Scans e P note) (hm : ∀ m, max = some m → l.counter.Holds m) {done : Nat}
    {xs : List Text} {b : Bool} (hmany : l.Many e max done pre xs post d d' b) : (∀ m, max = some m → done ≤ m) →
    b = false ∧ ∃ x : Text, d' = x.foldl note d ∧ xs = x.map (fun c => [c]) ∧ (∀ c ∈ x, P c) ∧
      (∀ m, max = some m → done + x.length ≤ m) ∧
      (max = some (done + x.length) ∨ ∀ c, post.head? = some c → ¬ P c) := by
  induction hmany with
  | atEnd => exact fun hle => ⟨rfl, [], rfl, rfl, by simp, hle, .inr (by simp)⟩
  | @atMax done _ _ _ most =>
    intro hle
    have hshown := ((hm _ most).mono (hle _ most)).shows_eq
    exact ⟨rfl, [], rfl, rfl, by simp, hle, .inl (by rw [most, hshown]; rfl)⟩
  | refused _ _ here =>
    obtain ⟨hstop, rfl⟩ := h.refuses.1 here
    exact fun hle => ⟨rfl, [], rfl, rfl, by simp, hle, .inr hstop⟩
  | emptied _ _ here =>
    obtain ⟨c, hc, -⟩ := h.takes.1 here
    cases hc
  | more below filled here rest ih =>
    intro hle
    obtain ⟨c, rfl, hc, rfl⟩ := h.takes.1 here
    have hle' : ∀ m, max = some m → _ + 1 ≤ m := fun m hmax =>
      Nat.lt_of_le_of_ne (hle m hmax) fun heq => below (by rw [heq, (hm m hmax).shows_eq, hmax])
    obtain ⟨rfl, x, rfl, rfl, hx, hmost, hstop⟩ := ih hle'
    refine ⟨rfl, c :: x, rfl, rfl, List.forall_mem_cons.2 ⟨hc, hx⟩, ?_, ?_⟩
    · rw [List.length_cons, Nat.add_comm x.length, ← Nat.add_assoc]
      exact hmost
    · rw [List.length_cons, Nat.add_comm x.length, ← Nat.add_assoc]
      exact hstop

theorem flatten_singletons (x : Text) : (x.map fun c => [c]).flatten = x := by
  rw [← List.flatMap_def, List.flatMap_singleton']

/-- **A repetition of a class that is scanned** takes as many of its characters as there are and as it may, if what the
counter shows of them is enough. -/
theorem takes_rep_scans_shown (h : l.Scans e P note) (hmax : max ≠ some 0) (hm : ∀ m, max = some m → l.counter.Holds m) :
    l.Takes (.rep min max e) pre x post d d' ↔
      (∀ c ∈ x, P c) ∧ min ≤ l.counter.shows x.length ∧ (∀ m, max = some m → x.length ≤ m) ∧
        (max = some x.length ∨ ∀ c, post.head? = some c → ¬ P c) ∧ d' = x.foldl note d := by
  rw [takes_rep hmax]
  constructor
  · rintro ⟨xs, b, rfl, hmany, hmin⟩
    obtain ⟨rfl, x, rfl, rfl, hx, hmost, hstop⟩ := scans_of_many h hm hmany fun _ _ => Nat.zero_le _
    rw [flatten_singletons]
    rw [Nat.zero_add] at hmost hstop
    exact ⟨hx, by simpa using hmin, hmost, hstop, rfl⟩
  · rintro ⟨hx, hmin, hmost, hstop, rfl⟩
    refine ⟨_, false, flatten_singletons x, many_of_scans h hm hx ?_ ?_, .inr (by simpa using hmin)⟩
    · rwa [Nat.zero_add]
    · rwa [Nat.zero_add]

theorem takes_rep_scans [l.Exact] (h : l.Scans e P note) (hmax : max ≠ some 0) :
    l.Takes (.rep min max e) pre x post d d' ↔ (∀ c ∈ x, P c) ∧ min ≤ x.length ∧ (∀ m, max = some m → x.length ≤ m) ∧
      (max = some x.length ∨ ∀ c, post.head? = some c → ¬ P c) ∧ d' = x.foldl note d := by
  rw [takes_rep_scans_shown h hmax fun m _ => holds_counter m, shows_counter]

end

variable {P : Char → Prop}

theorem takes_rep_class_shown (h : l.Class e P) (hmax : max ≠ some 0) (hm : ∀ m, max = some m → l.counter.Holds m) :
    l.Takes (.rep min max e) pre x post d d' ↔
      (∀ c ∈ x, P c) ∧ min ≤ l.counter.shows x.length ∧ (∀ m, max = some m → x.length ≤ m) ∧
        (max = some x.length ∨ ∀ c, post.head? = some c → ¬ P c) ∧ d' = d := by
  rw [takes_rep_scans_shown h.scans hmax hm, List.foldl_fixed]

theorem takes_star_class (h : l.Class e P) : l.Takes (.star e) pre x post d d' ↔
    (∀ c ∈ x, P c) ∧ (∀ c, post.head? = some c → ¬ P c) ∧ d' = d := by
  rw [Expr.star, takes_rep_class_shown h (by simp) (by simp)]
  simp

/-- A repetition that has to match once takes all characters of its class that there are, unless the counter shows none of
them. -/
theorem takes_plus_class_shown (h : l.Class e P) : l.Takes (.plus e) pre x post d d' ↔
    l.counter.shows x.length ≠ 0 ∧ (∀ c ∈ x, P c) ∧ (∀ c, post.head? = some c → ¬ P c) ∧ d' = d := by
  rw [Expr.plus, takes_rep_class_shown h (by simp) (by simp), ← Nat.one_le_iff_ne_zero]
  simp [and_left_comm]

section

variable [l.Exact]

theorem takes_rep_class (h : l.Class e P) (hmax : max ≠ some 0) :
    l.Takes (.rep min max e) pre x post d d' ↔ (∀ c ∈ x, P c) ∧ min ≤ x.length ∧ (∀ m, max = some m → x.length ≤ m) ∧
      (max = some x.length ∨ ∀ c, post.head? = some c → ¬ P c) ∧ d' = d := by
  rw [takes_rep_scans h.scans hmax, List.foldl_fixed]

theorem takes_plus_class (h : l.Class e P) : l.Takes (.plus e) pre x post d d' ↔
    x ≠ [] ∧ (∀ c ∈ x, P c) ∧ (∀ c, post.head? = some c → ¬ P c) ∧ d' = d := by
  rw [takes_plus_class_shown h, shows_counter, ← List.length_pos_iff, Nat.pos_iff_ne_zero]

/-- A repetition that has to match once refuses where it finds no character of its class. -/
theorem refuses_plus_class (h : l.Class e P) : l.Refuses (.plus e) pre post d d' ↔
    (∀ c, post.head? = some c → ¬ P c) ∧ d' = d := by
  rw [Expr.plus, refuses_rep (by simp)]
  constructor
  · rintro ⟨xs, rest, rfl, hmany, hlt⟩
    obtain ⟨-, x, rfl, rfl, -, -, hstop⟩ := scans_of_many h.scans (by simp) hmany fun _ _ => Nat.zero_le _
    obtain rfl : x = [] := by simpa using hlt
    exact ⟨by simpa using hstop, rfl⟩
  · rintro ⟨hstop, rfl⟩
    exact ⟨[], post, rfl, many_of_scans h.scans (by simp) (x := []) (by simp) (by simp) (.inr hstop), by simp⟩

/-- **A repetition that has to match once takes what there is,** if there is a character of its class. -/
theorem takes_plus_class_of_head [DecidablePred P] (h : l.Class e P) (pre : Text) (d : D) {c : Char}
    (hc : post.head? = some c) (hP : P c) : ∃ x rest, post = x ++ rest ∧ l.Takes (.plus e) pre x rest d d := by
  refine ⟨post.takeWhile P, post.dropWhile P, List.takeWhile_append_dropWhile.symm, (takes_plus_class h).2 ⟨?_, ?_, ?_, rfl⟩⟩
  · cases post with
    | nil => cases hc
    | cons c' post =>
      cases hc
      rw [List.takeWhile_cons_of_pos (by simpa using hP)]
      exact List.cons_ne_nil _ _
  · intro c' hc'
    simpa using List.all_eq_true.1 List.all_takeWhile c' hc'
  · intro c' hc'
    have := List.head?_dropWhile_not (fun c => decide (P c)) post
    rw [hc'] at this
    simpa using this

end

end Lexicon
end SignIn
