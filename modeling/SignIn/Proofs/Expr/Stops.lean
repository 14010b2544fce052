import SignIn.Proofs.Expr.Alphabet
import SignIn.Proofs.Expr.Recognizes
/-!
# Characters that end a text

Before a character that it cannot read, an expression does what it does at the end of the input.  That is not quite true:
there a repetition does not ask its operand at all, and a callback that would have been asked may note something.  So
`l.Stops R S e` is told up to a relation of data.  Two inputs agree on a text, and then each of them ends or goes on
with a character of `S`; from data that are related the expression takes the same of the text, or refuses both, and leaves
the data related.

The relation may change at a rule: inside one whose callback begins a count anew, more is known of the count than around
it (`Callback.Leads`, `Stops.rnm_leads`).
-/
namespace SignIn

variable {S s t x y z rest : Text}

/-- What has none of the characters and stands before a text that goes on with one, stands within what is before it. -/
theorem exists_append_of_headIn (hs : HeadIn S s) (hx : ∀ c ∈ x, c ∉ S) (h : x ++ rest = z ++ s) :
    ∃ z', z = x ++ z' ∧ rest = z' ++ s := by
  rcases List.append_eq_append_iff.1 h with ⟨z', rfl, rfl⟩ | ⟨x', rfl, rfl⟩
  · exact ⟨z', rfl, rfl⟩
  · cases x' with
    | nil => exact ⟨[], by simp, rfl⟩
    | cons c x' => exact absurd (hs c rfl) (hx c (by simp))

namespace Lexicon

variable {D : Type} {l : Lexicon D} {R R' : D → D → Prop} {e : Expr} {es : List Expr} {name : Text} {f : Callback D}

/-- **An expression stops at some characters** as it does at the end of the input. -/
structure Stops (l : Lexicon D) (R : D → D → Prop) (S : Text) (e : Expr) : Prop where
  takes : ∀ {pre q x rest z s t d₁ d₂ d₁'}, HeadIn S s → HeadIn S t → R d₁ d₂ → x ++ rest = z ++ s →
    l.Takes e pre x rest d₁ d₁' → ∃ z' d₂', z = x ++ z' ∧ rest = z' ++ s ∧ l.Takes e q x (z' ++ t) d₂ d₂' ∧ R d₁' d₂'
  refuses : ∀ {pre q z s t d₁ d₂ d₁'}, HeadIn S s → HeadIn S t → R d₁ d₂ → l.Refuses e pre (z ++ s) d₁ d₁' →
    ∃ d₂', l.Refuses e q (z ++ t) d₂ d₂' ∧ R d₁' d₂'
  /-- where it stops at once, it reads nothing and leaves the data as they are -/
  still : ∀ {s}, HeadIn S s → ∀ pre d, ∃ d', (l.Takes e pre [] s d d' ∨ l.Refuses e pre s d d') ∧ R d d'

/-- An expression that is no empty match. -/
def Moves (l : Lexicon D) (e : Expr) : Prop := ∀ {pre post d d'}, ¬ l.Takes e pre [] post d d'

theorem Moves.cat (h : l.Moves e) : l.Moves (.cat (e :: es)) := by
  intro pre post d d' htakes
  obtain ⟨y, z, d₁, heq, hy, -⟩ := takes_cat_cons.1 htakes
  obtain ⟨rfl, rfl⟩ := List.append_eq_nil_iff.1 heq.symm
  exact h hy

theorem Moves.plus {max : Option Nat} (h : l.Moves e) (hmax : max ≠ some 0) : l.Moves (.rep 1 max e) := by
  intro pre post d d' htakes
  obtain ⟨xs, b, hnil, hmany, hmin⟩ := (takes_rep hmax).1 htakes
  cases hmany with
  | emptied _ _ here => exact h here
  | more _ filled => exact filled (List.append_eq_nil_iff.1 hnil).1
  | _ => simp at hmin

theorem Moves.rnm {rules : List (Text × Expr)} (hl : l.Judging rules) {r : Text × Expr} (hr : r ∈ rules) (h : l.Moves r.2) :
    l.Moves (.rnm r.1) := by
  intro pre post d d' htakes
  obtain ⟨d₁, d₂, hbody⟩ := hl.takes_body hr htakes
  exact h hbody

theorem Token.moves {L : Language Char} (h : l.Token e L) (hnil : [] ∉ L) : l.Moves e := fun htakes =>
  hnil (h.takes.1 htakes).1

theorem Stops.still_refuses (h : l.Stops R S e) (hmoves : l.Moves e) (hs : HeadIn S s) (pre : Text) (d : D) :
    ∃ d', l.Refuses e pre s d d' ∧ R d d' := by
  obtain ⟨d', htakes | hrefuses, hd⟩ := h.still hs pre d
  · exact absurd htakes hmoves
  · exact ⟨d', hrefuses, hd⟩

section

variable (hR : Equivalence R)
include hR

/-- A token stops at the characters that its words have not. -/
theorem Token.stops {L : Language Char} (h : l.Token e L) (hL : Within (· ∉ S) L) (hnil : [] ∉ L) : l.Stops R S e where
  takes := by
    intro pre pre' x rest z s t d₁ d₂ d₁' hs _ hd heq htakes
    obtain ⟨hx, rfl⟩ := h.takes.1 htakes
    obtain ⟨z', rfl, rfl⟩ := exists_append_of_headIn hs (hL x hx) heq
    exact ⟨z', d₂, rfl, rfl, h.takes.2 ⟨hx, rfl⟩, hd⟩
  refuses := by
    intro pre pre' z s t d₁ d₂ d₁' hs ht hd hrefuses
    obtain ⟨ha, rfl⟩ := h.refuses.1 hrefuses
    refine ⟨d₂, h.refuses.2 ⟨?_, rfl⟩, hd⟩
    rintro x hx ⟨rest, hrest⟩
    obtain ⟨z', rfl, -⟩ := exists_append_of_headIn ht (hL x hx) hrest
    exact ha x hx (by simp)
  still := by
    intro s hs pre d
    refine ⟨d, .inr (h.refuses.2 ⟨?_, rfl⟩), hR.refl d⟩
    rintro x hx ⟨rest, rfl⟩
    cases x with
    | nil => exact hnil hx
    | cons c x => exact hL _ hx c List.mem_cons_self (hs c rfl)

theorem stops_cat_nil : l.Stops R S (.cat []) where
  takes := by
    intro pre pre' x rest z s t d₁ d₂ d₁' _ _ hd heq htakes
    obtain ⟨rfl, rfl⟩ := takes_cat_nil.1 htakes
    exact ⟨z, d₂, rfl, heq, takes_cat_nil.2 ⟨rfl, rfl⟩, hd⟩
  refuses _ _ _ h := absurd h refuses_cat_nil
  still _ _ d := ⟨d, .inl (takes_cat_nil.2 ⟨rfl, rfl⟩), hR.refl d⟩

theorem stops_cat_cons (he : l.Stops R S e) (hes : l.Stops R S (.cat es)) : l.Stops R S (.cat (e :: es)) where
  takes := by
    intro pre pre' x rest z s t d₁ d₂ d₁' hs ht hd heq htakes
    obtain ⟨y, w, d, rfl, hy, hw⟩ := takes_cat_cons.1 htakes
    rw [List.append_assoc] at heq
    obtain ⟨z₁, d₂₁, rfl, hrest, hy', hd₁⟩ := he.takes (q := pre') hs ht hd heq hy
    obtain ⟨z₂, d₂', rfl, rfl, hw', hd'⟩ := hes.takes (q := pre' ++ y) hs ht hd₁ hrest hw
    rw [List.append_assoc] at hy'
    exact ⟨z₂, d₂', by simp, rfl, takes_cat_cons.2 ⟨y, w, d₂₁, rfl, hy', hw'⟩, hd'⟩
  refuses := by
    intro pre pre' z s t d₁ d₂ d₁' hs ht hd hrefuses
    rcases refuses_cat_cons.1 hrefuses with h | ⟨y, w, d, heq, hy, hw⟩
    · exact (he.refuses (q := pre') hs ht hd h).imp fun _ h => ⟨refuses_cat_cons.2 (.inl h.1), h.2⟩
    · obtain ⟨z₁, d₂₁, rfl, rfl, hy', hd₁⟩ := he.takes (q := pre') hs ht hd heq.symm hy
      obtain ⟨d₂', hw', hd'⟩ := hes.refuses (q := pre' ++ y) hs ht hd₁ hw
      exact ⟨d₂', refuses_cat_cons.2 (.inr ⟨y, z₁ ++ t, d₂₁, List.append_assoc _ _ _, hy', hw'⟩), hd'⟩
  still := by
    intro s hs pre d
    obtain ⟨d₁, h | h, hd₁⟩ := he.still hs pre d
    · obtain ⟨d₂, h', hd₂⟩ := hes.still hs (pre ++ []) d₁
      refine ⟨d₂, ?_, hR.trans hd₁ hd₂⟩
      exact h'.imp (fun h' => takes_cat_cons.2 ⟨[], [], d₁, rfl, h, h'⟩) fun h' =>
        refuses_cat_cons.2 (.inr ⟨[], s, d₁, rfl, h, h'⟩)
    · exact ⟨d₁, .inr (refuses_cat_cons.2 (.inl h)), hd₁⟩

theorem stops_alt_nil : l.Stops R S (.alt []) where
  takes _ _ _ _ h := absurd h takes_alt_nil
  refuses := by
    intro pre pre' z s t d₁ d₂ d₁' _ _ hd hrefuses
    obtain rfl := refuses_alt_nil.1 hrefuses
    exact ⟨d₂, refuses_alt_nil.2 rfl, hd⟩
  still _ _ d := ⟨d, .inr (refuses_alt_nil.2 rfl), hR.refl d⟩

theorem stops_alt_cons (he : l.Stops R S e) (hes : l.Stops R S (.alt es)) : l.Stops R S (.alt (e :: es)) where
  takes := by
    intro pre pre' x rest z s t d₁ d₂ d₁' hs ht hd heq htakes
    rcases takes_alt_cons.1 htakes with h | ⟨d, h, h'⟩
    · obtain ⟨z', d₂', hz, hrest, h, hd'⟩ := he.takes (q := pre') hs ht hd heq h
      exact ⟨z', d₂', hz, hrest, takes_alt_cons.2 (.inl h), hd'⟩
    · rw [heq] at h
      obtain ⟨d₂₁, h, hd₁⟩ := he.refuses (q := pre') hs ht hd h
      obtain ⟨z', d₂', rfl, hrest, h', hd'⟩ := hes.takes (q := pre') hs ht hd₁ heq h'
      rw [List.append_assoc] at h
      exact ⟨z', d₂', rfl, hrest, takes_alt_cons.2 (.inr ⟨d₂₁, h, h'⟩), hd'⟩
  refuses := by
    intro pre pre' z s t d₁ d₂ d₁' hs ht hd hrefuses
    obtain ⟨d, h, h'⟩ := refuses_alt_cons.1 hrefuses
    obtain ⟨d₂₁, h, hd₁⟩ := he.refuses (q := pre') hs ht hd h
    obtain ⟨d₂', h', hd'⟩ := hes.refuses (q := pre') hs ht hd₁ h'
    exact ⟨d₂', refuses_alt_cons.2 ⟨d₂₁, h, h'⟩, hd'⟩
  still := by
    intro s hs pre d
    obtain ⟨d₁, h | h, hd₁⟩ := he.still hs pre d
    · exact ⟨d₁, .inl (takes_alt_cons.2 (.inl h)), hd₁⟩
    · obtain ⟨d₂, h', hd₂⟩ := hes.still hs pre d₁
      refine ⟨d₂, ?_, hR.trans hd₁ hd₂⟩
      exact h'.imp (fun h' => takes_alt_cons.2 (.inr ⟨d₁, h, h'⟩)) fun h' => refuses_alt_cons.2 ⟨d₁, h, h'⟩

/-- **The rounds of a repetition** are the same.  Where the text is used up, one input may end and the other ask the
operand once more, which then stops. -/
theorem Stops.many (he : l.Stops R S e) (hmoves : l.Moves e) (hs : HeadIn S s) (ht : HeadIn S t) {max : Option Nat}
    {done : Nat} {pre : Text} {xs : List Text} {d₁ d₁' : D} {b : Bool} (h : l.Many e max done pre xs rest d₁ d₁' b) :
    ∀ {q z d₂}, R d₁ d₂ → xs.flatten ++ rest = z ++ s → b = false ∧
      ∃ z' d₂', z = xs.flatten ++ z' ∧ rest = z' ++ s ∧ l.Many e max done q xs (z' ++ t) d₂ d₂' false ∧ R d₁' d₂' := by
  induction h with
  | @atEnd done pre d₁ =>
    intro pre' z d₂ hd heq
    obtain ⟨rfl, rfl⟩ := List.append_eq_nil_iff.1 heq.symm
    refine ⟨rfl, [], ?_⟩
    by_cases hmax : max = some (l.counter.shows done)
    · exact ⟨d₂, rfl, rfl, .atMax hmax, hd⟩
    · cases t with
      | nil => exact ⟨d₂, rfl, rfl, .atEnd, hd⟩
      | cons c t =>
        obtain ⟨d₂', href, hd'⟩ := he.still_refuses hmoves ht pre' d₂
        exact ⟨d₂', rfl, rfl, .refused (List.cons_ne_nil _ _) hmax href, hR.trans hd hd'⟩
  | atMax most =>
    intro pre' z d₂ hd heq
    exact ⟨rfl, z, d₂, rfl, heq, .atMax most, hd⟩
  | @refused done pre post d₁ d₁' before below here =>
    intro pre' z d₂ hd heq
    obtain rfl : post = z ++ s := heq
    refine ⟨rfl, z, ?_⟩
    by_cases hnil : z ++ t = []
    · obtain ⟨rfl, rfl⟩ := List.append_eq_nil_iff.1 hnil
      obtain ⟨d, href, hd'⟩ := he.still_refuses hmoves hs pre d₁
      obtain rfl := href.unique here
      exact ⟨d₂, rfl, rfl, .atEnd, hR.trans (hR.symm hd') hd⟩
    · obtain ⟨d₂', href, hd'⟩ := he.refuses (q := pre') hs ht hd here
      exact ⟨d₂', rfl, rfl, .refused hnil below href, hd'⟩
  | emptied _ _ here => exact absurd here hmoves
  | @more done pre x xs post d₁ d d₁' b below filled here _ ih =>
    intro pre' z d₂ hd heq
    rw [List.flatten_cons, List.append_assoc] at heq
    obtain ⟨z₁, d₂₁, rfl, hrest, hx, hd₁⟩ := he.takes (q := pre') hs ht hd heq here
    obtain ⟨rfl, z₂, d₂', rfl, rfl, hmany, hd'⟩ := ih (q := pre' ++ x) hd₁ hrest
    rw [List.append_assoc] at hx
    exact ⟨rfl, z₂, d₂', by simp, rfl, .more below filled hx hmany, hd'⟩

theorem Stops.rep (he : l.Stops R S e) (hmoves : l.Moves e) {min : Nat} {max : Option Nat} (hmax : max ≠ some 0) :
    l.Stops R S (.rep min max e) where
  takes := by
    intro pre pre' x rest z s t d₁ d₂ d₁' hs ht hd heq htakes
    obtain ⟨xs, b, rfl, hmany, hmin⟩ := (takes_rep hmax).1 htakes
    obtain ⟨rfl, z', d₂', hz, hrest, hmany, hd'⟩ := he.many hR hmoves hs ht hmany (q := pre') hd heq
    exact ⟨z', d₂', hz, hrest, (takes_rep hmax).2 ⟨xs, false, rfl, hmany, hmin⟩, hd'⟩
  refuses := by
    intro pre pre' z s t d₁ d₂ d₁' hs ht hd hrefuses
    obtain ⟨xs, rest, heq, hmany, hlt⟩ := (refuses_rep hmax).1 hrefuses
    obtain ⟨-, z', d₂', rfl, -, hmany, hd'⟩ := he.many hR hmoves hs ht hmany (q := pre') hd heq.symm
    exact ⟨d₂', (refuses_rep hmax).2 ⟨xs, z' ++ t, List.append_assoc _ _ _, hmany, hlt⟩, hd'⟩
  still := by
    intro s hs pre d
    obtain ⟨d', hmany, hd'⟩ : ∃ d', l.Many e max 0 pre [] s d d' false ∧ R d d' := by
      by_cases hnil : s = []
      · exact ⟨d, by rw [hnil]; exact .atEnd, hR.refl d⟩
      · obtain ⟨d', href, hd'⟩ := he.still_refuses hmoves hs pre d
        exact ⟨d', .refused hnil (by rwa [Counter.shows_zero]) href, hd'⟩
    refine ⟨d', ?_, hd'⟩
    cases min with
    | zero => exact .inl ((takes_rep hmax).2 ⟨[], false, rfl, hmany, .inr (Nat.zero_le _)⟩)
    | succ min => exact .inr ((refuses_rep hmax).2 ⟨[], s, rfl, hmany, by simp⟩)

end

theorem Stops.not (he : l.Stops R S e) : l.Stops R S (.not e) where
  takes := by
    intro pre pre' x rest z s t d₁ d₂ d₁' hs ht hd heq htakes
    obtain ⟨rfl, h⟩ := takes_not.1 htakes
    obtain rfl : rest = z ++ s := heq
    obtain ⟨d₂', h, hd'⟩ := he.refuses (q := pre') hs ht hd h
    exact ⟨z, d₂', rfl, rfl, takes_not.2 ⟨rfl, h⟩, hd'⟩
  refuses := by
    intro pre pre' z s t d₁ d₂ d₁' hs ht hd hrefuses
    obtain ⟨x, rest, heq, h⟩ := refuses_not.1 hrefuses
    obtain ⟨z', d₂', rfl, -, h, hd'⟩ := he.takes (q := pre') hs ht hd heq.symm h
    exact ⟨d₂', refuses_not.2 ⟨x, z' ++ t, List.append_assoc _ _ _, h⟩, hd'⟩
  still := by
    intro s hs pre d
    obtain ⟨d₁, h | h, hd₁⟩ := he.still hs pre d
    · exact ⟨d₁, .inr (refuses_not.2 ⟨[], s, rfl, h⟩), hd₁⟩
    · exact ⟨d₁, .inl (takes_not.2 ⟨rfl, h⟩), hd₁⟩

/-! ## Rules -/

theorem Stops.rnm (h : l.Stops R S e) (hdef : l.Defines name e none) : l.Stops R S (.rnm name) where
  takes := by
    simp only [takes_rnm hdef]
    exact h.takes
  refuses := by
    simp only [refuses_rnm hdef]
    exact h.refuses
  still := by
    simp only [takes_rnm hdef, refuses_rnm hdef]
    exact h.still

end Lexicon

/-- **A callback leads from one relation of data to another and back.**  On the way down it takes data that are related in
the first to data that are related in the second, and on the way up it answers alike and leads back, where what a match
says of the input is the text of the match.  At a rule that reads nothing it leaves the data as they were before the rule,
as far as the first relation can see. -/
structure Callback.Leads {D : Type} (f : Callback D) (R R' : D → D → Prop) : Prop where
  judges : f.Judges
  down : ∀ {d₁ d₂}, R d₁ d₂ → ∀ input input' o o', R' (f .undecided input o d₁).2 (f .undecided input' o' d₂).2
  up : ∀ {d₁ d₂}, R' d₁ d₂ → ∀ x pre pre' rest rest' : Text,
    (f (.ofLength x.length) (pre ++ (x ++ rest)).toArray pre.length d₁).1 =
        (f (.ofLength x.length) (pre' ++ (x ++ rest')).toArray pre'.length d₂).1 ∧
      R (f (.ofLength x.length) (pre ++ (x ++ rest)).toArray pre.length d₁).2
        (f (.ofLength x.length) (pre' ++ (x ++ rest')).toArray pre'.length d₂).2
  failed : ∀ {d₁ d₂}, R' d₁ d₂ → ∀ input input' o o', R (f .fail input o d₁).2 (f .fail input' o' d₂).2
  still : ∀ {d d'} input o, R' (f .undecided input o d).2 d' → R d (f .empty input o d').2 ∧ R d (f .fail input o d').2

namespace Callback

variable {D : Type} {R R' : D → D → Prop}

/-- A callback that notes a match, and notes the same of the same text. -/
theorem leads_onMatch {note : Array Char → Nat → Nat → D → D}
    (hnote : ∀ {d₁ d₂}, R d₁ d₂ → ∀ x pre pre' rest rest' : Text, x ≠ [] →
      R (note (pre ++ (x ++ rest)).toArray pre.length x.length d₁)
        (note (pre' ++ (x ++ rest')).toArray pre'.length x.length d₂)) : (onMatch note).Leads R R where
  judges := judges_onMatch note
  down hd _ _ _ _ := hd
  up := by
    intro d₁ d₂ hd x pre pre' rest rest'
    refine ⟨rfl, ?_⟩
    by_cases hx : x = []
    · subst hx
      exact hd
    · have hmatched : (Phrase.ofLength x.length).state = .matched := by simpa using hx
      simp only [onMatch, hmatched, if_true, Phrase.length_ofLength]
      exact hnote hd x pre pre' rest rest' hx
  failed hd _ _ _ _ := hd
  still _ _ hd := ⟨hd, hd⟩

/-- A callback that prepares and then judges by what the second relation knows. -/
theorem leads_judging {prepare : D → D} {holds : D → Bool} (hdown : ∀ {d₁ d₂}, R d₁ d₂ → R' (prepare d₁) (prepare d₂))
    (hholds : ∀ {d₁ d₂}, R' d₁ d₂ → holds d₁ = holds d₂) (hback : ∀ {d₁ d₂}, R' d₁ d₂ → R d₁ d₂)
    (hstill : ∀ {d d'}, R' (prepare d) d' → R d d') : (judging prepare holds).Leads R R' where
  judges := judges_judging prepare holds
  down hd _ _ _ _ := hdown hd
  up := by
    intro d₁ d₂ hd x pre pre' rest rest'
    unfold judging
    cases hs : (Phrase.ofLength x.length).state with
    | active => exact absurd hs (Phrase.settled_ofLength _).1
    | matched => exact ⟨by dsimp only; rw [hholds hd], hback hd⟩
    | _ => exact ⟨rfl, hback hd⟩
  failed hd _ _ _ _ := hback hd
  still _ _ hd := ⟨hstill hd, hstill hd⟩

end Callback

namespace Lexicon

variable {D : Type} {l : Lexicon D} {R R' : D → D → Prop} {e : Expr} {name : Text} {f : Callback D}

/-- **A rule with a callback that leads** from one relation to the other stops in the first if its expression does in the
second. -/
theorem Stops.rnm_leads (h : l.Stops R' S e) (hdef : l.Defines name e (some f)) (hf : f.Leads R R') :
    l.Stops R S (.rnm name) where
  takes := by
    intro pre pre' x rest z s t d₁ d₂ d₁' hs ht hd heq htakes
    obtain ⟨d, hbody, hup⟩ := (takes_rnm_judged hdef hf.judges).1 htakes
    obtain ⟨z', d', rfl, rfl, hbody', hd'⟩ := h.takes (q := pre') hs ht
      (hf.down hd _ (pre' ++ (z ++ t)).toArray _ pre'.length) heq hbody
    rw [List.append_assoc] at hbody'
    obtain ⟨hsame, hback⟩ := hf.up hd' x pre pre' (z' ++ s) (z' ++ t)
    rw [hup] at hsame hback
    refine ⟨z', _, rfl, rfl, ?_, hback⟩
    exact (takes_rnm_judged hdef hf.judges).2 ⟨d', hbody', Prod.ext hsame.symm rfl⟩
  refuses := by
    intro pre pre' z s t d₁ d₂ d₁' hs ht hd hrefuses
    have hdown := hf.down hd (pre ++ (z ++ s)).toArray (pre' ++ (z ++ t)).toArray pre.length pre'.length
    rcases (refuses_rnm_judged hdef hf.judges).1 hrefuses with ⟨d, hbody, rfl⟩ | ⟨x, rest, d, heq, hbody, hup⟩
    · obtain ⟨d', hbody', hd'⟩ := h.refuses (q := pre') hs ht hdown hbody
      exact ⟨_, (refuses_rnm_judged hdef hf.judges).2 (.inl ⟨d', hbody', rfl⟩), hf.failed hd' _ _ _ _⟩
    · obtain ⟨z', d', rfl, rfl, hbody', hd'⟩ := h.takes (q := pre') hs ht hdown heq.symm hbody
      obtain ⟨hsame, hback⟩ := hf.up hd' x pre pre' (z' ++ s) (z' ++ t)
      rw [heq] at hup
      rw [hup] at hsame hback
      refine ⟨_, (refuses_rnm_judged hdef hf.judges).2 (.inr ⟨x, z' ++ t, d', List.append_assoc _ _ _, hbody', ?_⟩), hback⟩
      rw [List.append_assoc]
      exact Prod.ext hsame.symm rfl
  still := by
    intro s hs pre d
    obtain ⟨d', hbody | hbody, hd⟩ := h.still hs pre (f .undecided (pre ++ s).toArray pre.length d).2
    · have hkept := (hf.still (pre ++ s).toArray pre.length hd).1
      refine ⟨_, ?_, hkept⟩
      rcases hf.judges .empty (pre ++ s).toArray pre.length d' with hpass | ⟨-, hfail⟩
      · exact .inl ((takes_rnm_judged hdef hf.judges).2 ⟨d', hbody, Prod.ext hpass rfl⟩)
      · exact .inr ((refuses_rnm_judged hdef hf.judges).2 (.inr ⟨[], s, d', rfl, hbody, Prod.ext hfail rfl⟩))
    · have hkept := (hf.still (pre ++ s).toArray pre.length hd).2
      exact ⟨_, .inr ((refuses_rnm_judged hdef hf.judges).2 (.inl ⟨d', hbody, rfl⟩)), hkept⟩

end Lexicon
end SignIn
