import Mathlib.Computability.Language
import SignIn.Proofs.Expr.Classes
/-!
# Languages that expressions recognize

An expression is run in order and keeps what it took, while a grammar chooses freely.  The two agree on a text if what
follows it does not tempt the expression further.  `l.Recognizes e L E` says that before the texts that satisfy `E` an
expression takes the words of the language `L` and nothing else.  There is one rule for each operator, and its conditions
are the places where committing early could lose a word: an option or a repetition has to end where its operand declines,
and an earlier alternative has to decline where a later one is meant.

`l.Token e L` is the case that needs no such care: an expression that takes the words of `L` wherever they stand.
-/
namespace SignIn

open Computability

/-! ## Languages of texts -/

/-- **One character of a class.** -/
def oneOf (P : Char → Prop) : Language Char := {x | ∃ c, x = [c] ∧ P c}

/-- **A text as it is written.** -/
def word (t : Text) : Language Char := {t}

/-- **A word of a language, or nothing.** -/
def optional (L : Language Char) : Language Char := 1 + L

/-- **A text begins with one of some characters,** or there is nothing of it. -/
def HeadIn (S t : Text) : Prop := ∀ c, t.head? = some c → c ∈ S

/-- **No word of a language stands at the beginning** of a text. -/
def Apart (L : Language Char) (t : Text) : Prop := ∀ x ∈ L, ¬ x <+: t

/-- **Every word begins with a character of a class,** so it is not empty. -/
def Opens (P : Char → Prop) (L : Language Char) : Prop := ∀ x ∈ L, ∃ c y, x = c :: y ∧ P c

/-- **Every word is made of characters of a class.** -/
def Within (P : Char → Prop) (L : Language Char) : Prop := ∀ x ∈ L, ∀ c ∈ x, P c

section

variable {P Q : Char → Prop} {L M : Language Char} {S T t x : Text} {c : Char}

theorem mem_optional : x ∈ optional L ↔ x = [] ∨ x ∈ L := Iff.rfl

theorem mem_word : x ∈ word t ↔ x = t := Iff.rfl

theorem headIn_nil : HeadIn S [] := by simp [HeadIn]

theorem headIn_cons (h : c ∈ S) : HeadIn S (c :: t) := by simpa [HeadIn] using h

theorem HeadIn.mono (h : HeadIn S t) (hST : S ⊆ T) : HeadIn T t := fun c hc => hST (h c hc)

theorem opens_oneOf : Opens P (oneOf P) := by
  rintro x ⟨c, rfl, hc⟩
  exact ⟨c, [], rfl, hc⟩

theorem opens_word : Opens (· = c) (word (c :: t)) := by
  rintro x rfl
  exact ⟨c, t, rfl, rfl⟩

theorem Opens.add (hL : Opens P L) (hM : Opens P M) : Opens P (L + M) := fun x hx => hx.elim (hL x) (hM x)

theorem Opens.mul (hL : Opens P L) : Opens P (L * M) := by
  intro x hx
  obtain ⟨y, hy, z, -, rfl⟩ := Language.mem_mul.1 hx
  obtain ⟨c, y, rfl, hc⟩ := hL y hy
  exact ⟨c, y ++ z, rfl, hc⟩

theorem Opens.mono (hL : Opens P L) (h : ∀ c, P c → Q c) : Opens Q L := fun x hx =>
  let ⟨c, y, hxy, hc⟩ := hL x hx
  ⟨c, y, hxy, h c hc⟩

theorem Opens.ne_nil (hL : Opens P L) (hx : x ∈ L) : x ≠ [] := by
  obtain ⟨c, y, rfl, -⟩ := hL x hx
  exact List.cons_ne_nil _ _

theorem Opens.nil_notMem (hL : Opens P L) : [] ∉ L := fun h => hL.ne_nil h rfl

/-- Words begin apart from texts that begin otherwise. -/
theorem Opens.apart (hL : Opens P L) (hP : ∀ c, P c → c ∉ S) (ht : HeadIn S t) : Apart L t := by
  rintro x hx ⟨rest, rfl⟩
  obtain ⟨c, y, rfl, hc⟩ := hL x hx
  exact hP c hc (ht c rfl)

theorem within_one : Within P 1 := by
  rintro x rfl
  simp

theorem within_oneOf (h : ∀ c, Q c → P c) : Within P (oneOf Q) := by
  rintro x ⟨c, rfl, hc⟩
  simpa using h c hc

theorem within_word (h : ∀ c ∈ t, P c) : Within P (word t) := by
  rintro x rfl
  exact h

theorem Within.add (hL : Within P L) (hM : Within P M) : Within P (L + M) := fun x hx => hx.elim (hL x) (hM x)

theorem Within.mul (hL : Within P L) (hM : Within P M) : Within P (L * M) := by
  intro x hx
  obtain ⟨y, hy, z, hz, rfl⟩ := Language.mem_mul.1 hx
  exact List.forall_mem_append.2 ⟨hL y hy, hM z hz⟩

theorem Within.kstar (hL : Within P L) : Within P L∗ := by
  rintro x ⟨ys, rfl, hys⟩ c hc
  obtain ⟨y, hy, hcy⟩ := List.mem_flatten.1 hc
  exact hL y (hys y hy) c hcy

/-- Characters one by one are a word of their class. -/
theorem mem_kstar_of_forall (h : ∀ c ∈ x, [c] ∈ L) : x ∈ L∗ := by
  refine ⟨x.map fun c => [c], ?_, by simpa using h⟩
  rw [← List.flatMap_def, List.flatMap_singleton']

end

namespace Lexicon

variable {D : Type} {l : Lexicon D} {e : Expr} {es fs : List Expr} {L M : Language Char} {E F : Text → Prop}
  {P Q : Char → Prop} {S t pre x post : Text} {name : Text} {f : Callback D} {d d' : D}

/-! ## Tokens -/

/-- **An expression is a token of a language:** it takes a word of it, and refuses where there is none. -/
structure Token (l : Lexicon D) (e : Expr) (L : Language Char) : Prop where
  takes : ∀ {pre x post d d'}, l.Takes e pre x post d d' ↔ x ∈ L ∧ d' = d
  refuses : ∀ {pre post d d'}, l.Refuses e pre post d d' ↔ Apart L post ∧ d' = d

theorem Class.token (h : l.Class e P) : l.Token e (oneOf P) where
  takes := h.takes
  refuses := by
    intro pre post d d'
    rw [h.refuses]
    refine and_congr_left fun _ => ⟨?_, fun ha c hc hP => ?_⟩
    · rintro hstop x ⟨c, rfl, hc⟩ ⟨rest, rfl⟩
      exact hstop c rfl hc
    · obtain ⟨rest, rfl⟩ := List.head?_eq_some_iff.1 hc
      exact ha [c] ⟨c, rfl, hP⟩ (List.prefix_append [c] rest)

theorem token_tbs (t : Text) : l.Token (.tbs t) (word t) where
  takes := takes_tbs
  refuses := by
    intro pre post d d'
    rw [refuses_tbs]
    refine and_congr_left fun _ => ⟨?_, fun ha => ha t rfl⟩
    rintro h x rfl
    exact h

theorem token_cat_nil : l.Token (.cat []) 1 where
  takes := takes_cat_nil
  refuses := ⟨fun h => absurd h refuses_cat_nil, fun h => absurd List.nil_prefix (h.1 [] rfl)⟩

/-- **A sequence of tokens** is a token. -/
theorem token_cat_cons (he : l.Token e L) (hes : l.Token (.cat es) M) : l.Token (.cat (e :: es)) (L * M) where
  takes := by
    intro pre x post d d'
    rw [takes_cat_cons, Language.mem_mul]
    constructor
    · rintro ⟨y, z, d₁, rfl, hy, hz⟩
      obtain ⟨hyL, rfl⟩ := he.takes.1 hy
      obtain ⟨hzM, rfl⟩ := hes.takes.1 hz
      exact ⟨⟨y, hyL, z, hzM, rfl⟩, rfl⟩
    · rintro ⟨⟨y, hy, z, hz, rfl⟩, rfl⟩
      exact ⟨y, z, d', rfl, he.takes.2 ⟨hy, rfl⟩, hes.takes.2 ⟨hz, rfl⟩⟩
  refuses := by
    intro pre post d d'
    rw [refuses_cat_cons]
    constructor
    · rintro (h | ⟨y, z, d₁, rfl, hy, hz⟩)
      · obtain ⟨ha, rfl⟩ := he.refuses.1 h
        refine ⟨fun x hx hpre => ?_, rfl⟩
        obtain ⟨y, hy, z, -, rfl⟩ := Language.mem_mul.1 hx
        exact ha y hy ((List.prefix_append y z).trans hpre)
      · obtain ⟨-, rfl⟩ := he.takes.1 hy
        obtain ⟨ha, rfl⟩ := hes.refuses.1 hz
        refine ⟨?_, rfl⟩
        rintro x hx ⟨rest, hrest⟩
        obtain ⟨y', hy', z', hz', rfl⟩ := Language.mem_mul.1 hx
        -- one token is taken at one place, so the two sequences part after the same word
        rw [List.append_assoc] at hrest
        obtain ⟨rfl, rfl, -⟩ := hy.unique (he.takes.2 ⟨hy', rfl⟩) hrest.symm
        exact ha z' hz' (List.prefix_append z' rest)
    · rintro ⟨ha, rfl⟩
      by_cases hL : Apart L post
      · exact .inl (he.refuses.2 ⟨hL, rfl⟩)
      · simp only [Apart, not_forall, not_not] at hL
        obtain ⟨y, hy, z, rfl⟩ := hL
        refine .inr ⟨y, z, d', rfl, he.takes.2 ⟨hy, rfl⟩, hes.refuses.2 ⟨fun z' hz' hpre => ?_, rfl⟩⟩
        exact ha (y ++ z') (Language.append_mem_mul hy hz') (by simpa using hpre)

/-- **A choice of tokens that begin differently** is a token. -/
theorem token_alt_append (hes : l.Token (.alt es) L) (hfs : l.Token (.alt fs) M) (hL : Opens P L) (hM : Opens Q M)
    (hPQ : ∀ c, P c → ¬ Q c) : l.Token (.alt (es ++ fs)) (L + M) where
  takes := by
    intro pre x post d d'
    rw [takes_alt_append]
    constructor
    · rintro (h | ⟨d₁, h, h'⟩)
      · exact (hes.takes.1 h).imp_left .inl
      · obtain ⟨-, rfl⟩ := hes.refuses.1 h
        exact (hfs.takes.1 h').imp_left .inr
    · rintro ⟨hx | hx, rfl⟩
      · exact .inl (hes.takes.2 ⟨hx, rfl⟩)
      · refine .inr ⟨d', hes.refuses.2 ⟨?_, rfl⟩, hfs.takes.2 ⟨hx, rfl⟩⟩
        rintro y hy ⟨rest, hrest⟩
        obtain ⟨c, x, rfl, hc⟩ := hM x hx
        obtain ⟨c', y, rfl, hc'⟩ := hL y hy
        rw [List.cons_append, List.cons_append, List.cons.injEq] at hrest
        exact hPQ c' hc' (hrest.1 ▸ hc)
  refuses := by
    intro pre post d d'
    rw [refuses_alt_append]
    constructor
    · rintro ⟨d₁, h, h'⟩
      obtain ⟨ha, rfl⟩ := hes.refuses.1 h
      obtain ⟨hb, rfl⟩ := hfs.refuses.1 h'
      exact ⟨fun x hx => hx.elim (ha x) (hb x), rfl⟩
    · rintro ⟨ha, rfl⟩
      exact ⟨d', hes.refuses.2 ⟨fun x hx => ha x (.inl hx), rfl⟩, hfs.refuses.2 ⟨fun x hx => ha x (.inr hx), rfl⟩⟩

theorem Token.rnm (h : l.Token e L) (hdef : l.Defines name e none) : l.Token (.rnm name) L where
  takes := (takes_rnm hdef).trans h.takes
  refuses := (refuses_rnm hdef).trans h.refuses

theorem Token.alt_one (h : l.Token e L) : l.Token (.alt [e]) L where
  takes := by
    intro pre x post d d'
    rw [takes_alt_cons, h.takes]
    simp [takes_alt_nil]
  refuses := by
    intro pre post d d'
    rw [refuses_alt_cons]
    simp [refuses_alt_nil, h.refuses]

/-! ## Where an expression declines -/

/-- **An expression declines a text:** it refuses before it, whatever came earlier. -/
def Declines (l : Lexicon D) (e : Expr) (t : Text) : Prop := ∀ pre d, ∃ d', l.Refuses e pre t d d'

theorem Token.declines (h : l.Token e L) (ht : Apart L t) : l.Declines e t := fun _ d => ⟨d, h.refuses.2 ⟨ht, rfl⟩⟩

theorem Declines.cat (h : l.Declines e t) : l.Declines (.cat (e :: es)) t := fun pre d =>
  (h pre d).imp fun _ h => refuses_cat_cons.2 (.inl h)

theorem Declines.rnm (h : l.Declines e t) (hdef : l.Defines name e none) : l.Declines (.rnm name) t := fun pre d =>
  (h pre d).imp fun _ h => (refuses_rnm hdef).2 h

theorem Declines.rnm_judged (h : l.Declines e t) (hdef : l.Defines name e (some f)) (hf : f.Judges) :
    l.Declines (.rnm name) t := fun pre d =>
  let ⟨d₁, h⟩ := h pre (f .undecided (pre ++ t).toArray pre.length d).2
  ⟨_, (refuses_rnm_judged hdef hf).2 (.inl ⟨d₁, h, rfl⟩)⟩

theorem declines_alt_nil : l.Declines (.alt []) t := fun _ d => ⟨d, refuses_alt_nil.2 rfl⟩

theorem Declines.alt (h : l.Declines e t) (hes : l.Declines (.alt es) t) : l.Declines (.alt (e :: es)) t := fun pre d =>
  let ⟨d₁, h₁⟩ := h pre d
  (hes pre d₁).imp fun _ h₂ => refuses_alt_cons.2 ⟨d₁, h₁, h₂⟩

/-- A repetition that has to match once declines where its operand does. -/
theorem Declines.plus {max : Option Nat} (h : l.Declines e t) (hmax : max ≠ some 0) : l.Declines (.rep 1 max e) t := by
  intro pre d
  by_cases ht : t = []
  · exact ⟨d, (refuses_rep hmax).2 ⟨[], t, rfl, by rw [ht]; exact .atEnd, by simp⟩⟩
  · obtain ⟨d', h⟩ := h pre d
    exact ⟨d', (refuses_rep hmax).2 ⟨[], t, rfl, .refused ht (by rwa [Counter.shows_zero]) h, by simp⟩⟩

/-- A sequence that begins with an option declines where neither the option nor the rest can begin. -/
theorem Declines.opt_cat (h : l.Declines e t) (hes : l.Declines (.cat es) t) : l.Declines (.cat (.opt e :: es)) t := by
  intro pre d
  obtain ⟨d₁, hopt⟩ : ∃ d₁, l.Takes (.opt e) pre [] t d d₁ := by
    by_cases ht : t = []
    · exact ⟨d, takes_opt.2 (.inl ⟨rfl, ht, rfl⟩)⟩
    · obtain ⟨d₁, h⟩ := h pre d
      exact ⟨d₁, takes_opt.2 (.inr ⟨ht, .inr ⟨rfl, h⟩⟩)⟩
  obtain ⟨d', hes⟩ := hes (pre ++ []) d₁
  exact ⟨d', refuses_cat_cons.2 (.inr ⟨[], t, d₁, rfl, hopt, hes⟩)⟩

/-! ## What an expression recognizes -/

/-- **An expression recognizes a language** before texts: there it takes its words and nothing else. -/
def Recognizes (l : Lexicon D) (e : Expr) (L : Language Char) (E : Text → Prop) : Prop :=
  ∀ pre x post d, E post → ((∃ d', l.Takes e pre x post d d') ↔ x ∈ L)

theorem Token.recognizes (h : l.Token e L) : l.Recognizes e L E := fun _ _ _ d _ =>
  ⟨fun ⟨_, ht⟩ => (h.takes.1 ht).1, fun hx => ⟨d, h.takes.2 ⟨hx, rfl⟩⟩⟩

theorem Recognizes.mono (h : l.Recognizes e L E) (hFE : ∀ t, F t → E t) : l.Recognizes e L F :=
  fun _ _ post _ hpost => h _ _ post _ (hFE post hpost)

theorem recognizes_cat_nil : l.Recognizes (.cat []) 1 E := token_cat_nil.recognizes

/-- **A sequence** recognizes a product, if the rest of it is what the first part may stand before. -/
theorem recognizes_cat_cons (he : l.Recognizes e L E) (hes : l.Recognizes (.cat es) M F)
    (hE : ∀ z ∈ M, ∀ t, F t → E (z ++ t)) : l.Recognizes (.cat (e :: es)) (L * M) F := by
  intro pre x post d hpost
  rw [Language.mem_mul]
  constructor
  · rintro ⟨d', h⟩
    obtain ⟨y, z, d₁, rfl, hy, hz⟩ := takes_cat_cons.1 h
    have hz := (hes _ _ _ _ hpost).1 ⟨d', hz⟩
    exact ⟨y, (he _ _ _ _ (hE z hz post hpost)).1 ⟨d₁, hy⟩, z, hz, rfl⟩
  · rintro ⟨y, hy, z, hz, rfl⟩
    obtain ⟨d₁, hy⟩ := (he pre y (z ++ post) d (hE z hz post hpost)).2 hy
    obtain ⟨d', hz⟩ := (hes (pre ++ y) z post d₁ hpost).2 hz
    exact ⟨d', takes_cat_cons.2 ⟨y, z, d₁, rfl, hy, hz⟩⟩

theorem Recognizes.cat_one (he : l.Recognizes e L E) : l.Recognizes (.cat [e]) L E := by
  have h : l.Recognizes (.cat [e]) (L * 1) E := recognizes_cat_cons he recognizes_cat_nil fun z hz t ht => by
    rw [show z = [] from hz]
    exact ht
  rwa [mul_one] at h

/-- **An option** has to end where its operand declines. -/
theorem Recognizes.opt (he : l.Recognizes e L E) (hFE : ∀ t, F t → E t) (hend : ∀ t, F t → l.Declines e t) :
    l.Recognizes (.opt e) (optional L) F := by
  intro pre x post d hpost
  rw [mem_optional]
  constructor
  · rintro ⟨d', h⟩
    rcases takes_opt.1 h with ⟨rfl, -⟩ | ⟨-, h | ⟨rfl, -⟩⟩
    · exact .inl rfl
    · exact .inr ((he _ _ _ _ (hFE post hpost)).1 ⟨d', h⟩)
    · exact .inl rfl
  · intro hx
    by_cases hnil : x = [] ∧ post = []
    · exact ⟨d, takes_opt.2 (.inl ⟨hnil.1, hnil.2, rfl⟩)⟩
    · have hne : x ++ post ≠ [] := by simpa using hnil
      rcases hx with rfl | hx
      · obtain ⟨d', h⟩ := hend post hpost pre d
        exact ⟨d', takes_opt.2 (.inr ⟨hne, .inr ⟨rfl, h⟩⟩)⟩
      · obtain ⟨d', h⟩ := (he pre x post d (hFE post hpost)).2 hx
        exact ⟨d', takes_opt.2 (.inr ⟨hne, .inl h⟩)⟩

section Rounds

variable (he : l.Recognizes e L E) (hnil : [] ∉ L) (hnext : ∀ x ∈ L, ∀ t, E (x ++ t)) (hFE : ∀ t, F t → E t)
  (hend : ∀ t, F t → l.Declines e t)
include hnext hFE

/-- Before the rounds that are left, or behind the last of them, a round may stand. -/
theorem ends_rounds {xs : List Text} (hxs : ∀ y ∈ xs, y ∈ L) (hpost : F post) : E (xs.flatten ++ post) := by
  cases xs with
  | nil => exact hFE post hpost
  | cons y ys =>
    rw [List.flatten_cons, List.append_assoc]
    exact hnext y (hxs y List.mem_cons_self) _

include he hnil

theorem words_of_many {max : Option Nat} {done : Nat} {xs : List Text} {b : Bool} (h : l.Many e max done pre xs post d d' b) :
    F post → b = false ∧ ∀ y ∈ xs, y ∈ L := by
  induction h with
  | emptied _ _ here => exact fun hpost => absurd ((he _ _ _ _ (hFE _ hpost)).1 ⟨_, here⟩) hnil
  | more _ _ here _ ih =>
    intro hpost
    obtain ⟨hb, hxs⟩ := ih hpost
    refine ⟨hb, List.forall_mem_cons.2 ⟨(he _ _ _ _ ?_).1 ⟨_, here⟩, hxs⟩⟩
    exact ends_rounds hnext hFE hxs hpost
  | _ => exact fun _ => ⟨rfl, by simp⟩

include hend

theorem many_of_words (hpost : F post) : ∀ (xs : List Text) (done : Nat) (pre : Text) (d : D), (∀ y ∈ xs, y ∈ L) →
    ∃ d', l.Many e none done pre xs post d d' false
  | [], done, pre, d, _ => by
    by_cases h : post = []
    · exact ⟨d, by rw [h]; exact .atEnd⟩
    · obtain ⟨d', href⟩ := hend post hpost pre d
      exact ⟨d', .refused h (by simp) href⟩
  | y :: xs, done, pre, d, hxs => by
    rw [List.forall_mem_cons] at hxs
    obtain ⟨d₁, hy⟩ := (he pre y (xs.flatten ++ post) d (ends_rounds hnext hFE hxs.2 hpost)).2 hxs.1
    obtain ⟨d', hmany⟩ := many_of_words hpost xs (done + 1) (pre ++ y) d₁ hxs.2
    exact ⟨d', .more (by simp) (fun h => hnil (h ▸ hxs.1)) hy hmany⟩

/-- **A repetition** has to end where its operand declines, and a round may be followed by the next. -/
theorem recognizes_rep {min : Nat} (hpost : F post) :
    (∃ d', l.Takes (.rep min none e) pre x post d d') ↔
      ∃ xs : List Text, x = xs.flatten ∧ min ≤ l.counter.shows xs.length ∧ ∀ y ∈ xs, y ∈ L := by
  constructor
  · rintro ⟨d', h⟩
    obtain ⟨xs, b, rfl, hmany, hmin⟩ := (takes_rep (by simp)).1 h
    obtain ⟨rfl, hxs⟩ := words_of_many he hnil hnext hFE hmany hpost
    exact ⟨xs, rfl, hmin.resolve_left (by simp), hxs⟩
  · rintro ⟨xs, rfl, hmin, hxs⟩
    obtain ⟨d', hmany⟩ := many_of_words he hnil hnext hFE hend hpost xs 0 pre d hxs
    exact ⟨d', (takes_rep (by simp)).2 ⟨xs, false, rfl, hmany, .inr hmin⟩⟩

theorem Recognizes.star : l.Recognizes (.star e) L∗ F := by
  intro pre x post d hpost
  rw [Expr.star, recognizes_rep he hnil hnext hFE hend hpost, Language.mem_kstar]
  simp

theorem Recognizes.plus [l.Exact] : l.Recognizes (.plus e) (L * L∗) F := by
  intro pre x post d hpost
  rw [Expr.plus, recognizes_rep he hnil hnext hFE hend hpost, Language.mem_mul]
  simp only [shows_counter]
  constructor
  · rintro ⟨xs, rfl, hmin, hxs⟩
    cases xs with
    | nil => cases hmin
    | cons y ys =>
      rw [List.forall_mem_cons] at hxs
      exact ⟨y, hxs.1, ys.flatten, Language.join_mem_kstar hxs.2, rfl⟩
  · rintro ⟨y, hy, z, ⟨ys, rfl, hys⟩, rfl⟩
    exact ⟨y :: ys, rfl, Nat.succ_pos _, List.forall_mem_cons.2 ⟨hy, hys⟩⟩

end Rounds

/-- A token is repeated until none of its words follows. -/
theorem Token.star (h : l.Token e L) (hnil : [] ∉ L) : l.Recognizes (.star e) L∗ (Apart L) :=
  Recognizes.star (E := fun _ => True) h.recognizes hnil (fun _ _ _ => trivial) (fun _ _ => trivial) fun _ => h.declines

theorem Token.plus [l.Exact] (h : l.Token e L) (hnil : [] ∉ L) : l.Recognizes (.plus e) (L * L∗) (Apart L) :=
  Recognizes.plus (E := fun _ => True) h.recognizes hnil (fun _ _ _ => trivial) (fun _ _ => trivial) fun _ => h.declines

theorem Recognizes.alt_one (h : l.Recognizes e L E) : l.Recognizes (.alt [e]) L E := by
  intro pre x post d hpost
  rw [← h pre x post d hpost]
  simp [takes_alt_cons, takes_alt_nil]

/-- **A choice:** the first alternative has to decline where another is meant. -/
theorem recognizes_alt_cons (he : l.Recognizes e L E) (hes : l.Recognizes (.alt es) M F) (hFE : ∀ t, F t → E t)
    (hother : ∀ z ∈ M, ∀ t, F t → l.Declines e (z ++ t)) : l.Recognizes (.alt (e :: es)) (L + M) F := by
  intro pre x post d hpost
  rw [Language.mem_add]
  constructor
  · rintro ⟨d', h⟩
    rcases takes_alt_cons.1 h with h | ⟨d₁, -, h⟩
    · exact .inl ((he _ _ _ _ (hFE post hpost)).1 ⟨d', h⟩)
    · exact .inr ((hes _ _ _ _ hpost).1 ⟨d', h⟩)
  · rintro (hx | hx)
    · obtain ⟨d', h⟩ := (he pre x post d (hFE post hpost)).2 hx
      exact ⟨d', takes_alt_cons.2 (.inl h)⟩
    · obtain ⟨d₁, href⟩ := hother x hx post hpost pre d
      obtain ⟨d', h⟩ := (hes pre x post d₁ hpost).2 hx
      exact ⟨d', takes_alt_cons.2 (.inr ⟨d₁, href, h⟩)⟩

theorem Recognizes.rnm (h : l.Recognizes e L E) (hdef : l.Defines name e none) : l.Recognizes (.rnm name) L E := by
  intro pre x post d hpost
  simp only [takes_rnm hdef, h pre x post d hpost]

/-- **A rule whose callback judges** recognizes the words that it lets pass. -/
theorem Recognizes.rnm_judged (h : l.Recognizes e L E) (hdef : l.Defines name e (some f)) (hf : f.Judges)
    {R : Text → Prop} (hR : ∀ x ∈ L, ∀ pre post d,
      (f (.ofLength x.length) (pre ++ (x ++ post)).toArray pre.length d).1 = .ofLength x.length ↔ R x) :
    l.Recognizes (.rnm name) {x | x ∈ L ∧ R x} E := by
  intro pre x post d hpost
  simp only [takes_rnm_judged hdef hf]
  constructor
  · rintro ⟨d', d₁, htakes, hup⟩
    have hx := (h _ _ _ _ hpost).1 ⟨d₁, htakes⟩
    exact ⟨hx, (hR x hx pre post d₁).1 (by rw [hup])⟩
  · rintro ⟨hx, hRx⟩
    obtain ⟨d₁, htakes⟩ := (h pre x post _ hpost).2 hx
    exact ⟨_, d₁, htakes, Prod.ext ((hR x hx pre post d₁).2 hRx) rfl⟩

/-- A rule whose callback lets all its words pass. -/
theorem Recognizes.rnm_noted (h : l.Recognizes e L E) (hdef : l.Defines name e (some f)) (hf : f.Judges)
    (hpass : ∀ x ∈ L, ∀ input o d, (f (.ofLength x.length) input o d).1 = .ofLength x.length) :
    l.Recognizes (.rnm name) L E := by
  have hall := h.rnm_judged hdef hf (R := fun _ => True) fun x hx pre post d => iff_of_true (hpass x hx _ _ d) trivial
  intro pre x post d hpost
  exact (hall pre x post d hpost).trans (and_iff_left trivial)

end Lexicon
end SignIn
