import SignIn.Proofs.Text.Splits
import SignIn.Proofs.Uri.Octets
/-!
# IPv6 addresses

The grammar reads any number of groups, and callbacks count them.  A count is never taken back, so it has to be seen that
nothing is counted and then given up: a group is counted when it is read whole, a run of groups never fails once it has
begun, and both forms of an address begin to count anew.

The rules whose groups no dot may follow leave the first octet of an IPv4 address alone, `GroupsEnd` says where a run of
groups ends.  The form without a double colon is tried first, and before one it refuses: it cannot read past it, and there
are too few groups before it (`words_before_gap`).
-/
namespace SignIn

open Lexicon UriCapture

variable {pre x post t : Text} {d d' : UriCapture} {barred : Text} {first next : Expr}

/-- **A 16-bit group:** one to four hexadecimal digits. -/
def IsGroup (g : Text) : Prop := 1 ≤ g.length ∧ g.length ≤ 4 ∧ ∀ c ∈ g, isHexDigit c = true

/-- A group ends with its fourth digit or before what is no digit, and not before some characters. -/
def GroupEnds (barred g post : Text) : Prop :=
  (g.length = 4 ∨ ∀ c, post.head? = some c → ¬ isHexDigit c = true) ∧ ∀ c, post.head? = some c → c ∉ barred

/-- No group is read. -/
def NoGroup (barred post : Text) : Prop := ∀ g rest, post = g ++ rest → IsGroup g → ¬ GroupEnds barred g rest

/-- **Where a run of groups ends:** nothing goes on with the last one, and no further one is read after a colon. -/
def GroupsEnd (barred post : Text) : Prop :=
  (∀ c, post.head? = some c → ¬ isHexDigit c = true ∧ c ∉ barred) ∧ ∀ t, post = ':' :: t → NoGroup barred t

/-- One group more is noted, and some. -/
def UriCapture.count (d : UriCapture) (n : Nat) : UriCapture := { d with groups := d.groups + n }

@[simp] theorem count_count (m n : Nat) : (d.count m).count n = d.count (m + n) := by
  simp only [UriCapture.count, Nat.add_assoc]

@[simp] theorem groups_count (n : Nat) : (d.count n).groups = d.groups + n := rfl

/-! ## One group -/

theorem takes_hexDigits : fieldLexicon.Takes (.rep 1 (some 4) Rules.hexDigit) pre x post d d' ↔
    IsGroup x ∧ GroupEnds [] x post ∧ d' = d := by
  rw [takes_rep_class class_hexDigit (by simp)]
  constructor
  · rintro ⟨hhex, hmin, hmax, hstop, rfl⟩
    exact ⟨⟨hmin, hmax 4 rfl, hhex⟩, ⟨hstop.imp_left fun h => (Option.some.inj h).symm, by simp⟩, rfl⟩
  · rintro ⟨⟨hmin, hmax, hhex⟩, ⟨hstop, -⟩, rfl⟩
    refine ⟨hhex, hmin, fun m hm => ?_, hstop.imp_left fun h => congrArg some h.symm, rfl⟩
    rwa [← Option.some.inj hm]

theorem takes_hexDigits_not : fieldLexicon.Takes (.cat [.rep 1 (some 4) Rules.hexDigit, .not (.ch 46)]) pre x post d d' ↔
    IsGroup x ∧ GroupEnds ['.'] x post ∧ d' = d := by
  have hdot : fieldLexicon.Class (.ch 46) (· = '.') := class_ch '.'
  simp only [takes_cat_cons, takes_cat_nil, takes_not, takes_hexDigits, hdot.refuses, GroupEnds, List.mem_singleton]
  constructor
  · rintro ⟨_, _, _, rfl, ⟨hgroup, ⟨hend, -⟩, rfl⟩, _, _, _, rfl, ⟨rfl, hnodot, rfl⟩, rfl, rfl⟩
    simp only [List.append_nil, List.nil_append] at hgroup hend hnodot ⊢
    exact ⟨hgroup, ⟨hend, hnodot⟩, trivial⟩
  · rintro ⟨hgroup, ⟨hend, hnodot⟩, rfl⟩
    exact ⟨x, [], d', by simp, ⟨hgroup, ⟨by simpa using hend, by simp⟩, rfl⟩,
      [], [], d', rfl, ⟨rfl, by simpa using hnodot, rfl⟩, rfl, rfl⟩

theorem takes_colon_cat {es : List Expr} : fieldLexicon.Takes (.cat (.ch 58 :: es)) pre x post d d' ↔
    ∃ y, x = ':' :: y ∧ fieldLexicon.Takes (.cat es) (pre ++ [':']) y post d d' := by
  have hcolon : fieldLexicon.Class (.ch 58) (· = ':') := class_ch ':'
  simp only [takes_cat_cons, hcolon.takes]
  constructor
  · rintro ⟨_, y, _, rfl, ⟨⟨_, rfl, rfl⟩, rfl⟩, h⟩
    exact ⟨y, rfl, h⟩
  · rintro ⟨y, rfl, h⟩
    exact ⟨[':'], y, d, rfl, ⟨⟨':', rfl, rfl⟩, rfl⟩, h⟩

/-- A rule that counts its match. -/
theorem takes_group {name : String} {body : Expr} (hrule : ((name : Text), body) ∈ Rules.uri)
    (hnoted : ((name : Text), onGroup) ∈ actions) :
    fieldLexicon.Takes (.rnm name) pre x post d d' ↔
      ∃ d₁, fieldLexicon.Takes body pre x post d d₁ ∧ (if x = [] then d₁ else d₁.count 1) = d' :=
  takes_rnm_onMatch (defines_noted hrule hnoted)

/-- A rule that counts its match refuses where it takes nothing, and then it has counted nothing. -/
theorem refuses_group {name : String} {body : Expr} (hrule : ((name : Text), body) ∈ Rules.uri)
    (hnoted : ((name : Text), onGroup) ∈ actions) (hbody : Plain body) :
    fieldLexicon.Refuses (.rnm name) pre post d d' ↔
      (∀ x rest d₁, post = x ++ rest → ¬ fieldLexicon.Takes (.rnm name) pre x rest d d₁) ∧ d' = d := by
  have hname : (name : Text) ∈ bundledNames := List.mem_map_of_mem (List.mem_append_right _ hrule)
  have hsame : ∀ {d'}, fieldLexicon.Refuses (.rnm name) pre post d d' → d' = d := fun h =>
    hbody.eq_of_refuses ((refuses_rnm_onMatch (defines_noted hrule hnoted)).1 h)
  constructor
  · intro h
    refine ⟨?_, hsame h⟩
    rintro x rest d₁ rfl htakes
    exact htakes.not_refuses h
  · rintro ⟨hnone, rfl⟩
    rcases decides_field (bundled_within hname) (bundledRules_stay _ hname) pre post d' with ⟨d₁, h⟩ | ⟨x, rest, d₁, heq, h⟩
    · rwa [hsame h] at h
    · exact absurd h (hnone x rest d₁ heq)

/-! ## Runs of groups -/

/-- **Rules that read groups,** the first of a run and the next ones after colons. -/
structure Grouping (barred : Text) (first next : Expr) : Prop where
  takes_first : ∀ {pre x post d d'}, fieldLexicon.Takes first pre x post d d' ↔
    IsGroup x ∧ GroupEnds barred x post ∧ d' = d.count 1
  takes_next : ∀ {pre x post d d'}, fieldLexicon.Takes next pre x post d d' ↔
    ∃ g, x = ':' :: g ∧ IsGroup g ∧ GroupEnds barred g post ∧ d' = d.count 1
  refuses_first : ∀ {pre post d d'}, fieldLexicon.Refuses first pre post d d' ↔ NoGroup barred post ∧ d' = d
  refuses_next : ∀ {pre post d d'}, fieldLexicon.Refuses next pre post d d' ↔
    (∀ t, post = ':' :: t → NoGroup barred t) ∧ d' = d

theorem IsGroup.ne_nil {g : Text} (h : IsGroup g) : g ≠ [] := List.length_pos_iff.1 h.1

/-- Two rules with callbacks that count make a grouping, if their expressions read groups. -/
theorem grouping_of {first next : String} {e f : Expr} (hfirst : ((first : Text), e) ∈ Rules.uri)
    (hnext : ((next : Text), f) ∈ Rules.uri) (hnoted : ((first : Text), onGroup) ∈ actions)
    (hnoted' : ((next : Text), onGroup) ∈ actions)
    (hplain : Plain e ∧ Plain f)
    (he : ∀ {pre x post d d'}, fieldLexicon.Takes e pre x post d d' ↔ IsGroup x ∧ GroupEnds barred x post ∧ d' = d)
    (hf : ∀ {pre x post d d'}, fieldLexicon.Takes f pre x post d d' ↔
      ∃ g, x = ':' :: g ∧ IsGroup g ∧ GroupEnds barred g post ∧ d' = d) :
    Grouping barred (.rnm first) (.rnm next) := by
  have htakes : ∀ {pre x post d d'}, fieldLexicon.Takes (.rnm first) pre x post d d' ↔
      IsGroup x ∧ GroupEnds barred x post ∧ d' = d.count 1 := by
    intro pre x post d d'
    simp only [takes_group hfirst hnoted, he]
    constructor
    · rintro ⟨_, ⟨hg, hend, rfl⟩, rfl⟩
      exact ⟨hg, hend, if_neg hg.ne_nil⟩
    · rintro ⟨hg, hend, rfl⟩
      exact ⟨d, ⟨hg, hend, rfl⟩, if_neg hg.ne_nil⟩
  have htakes' : ∀ {pre x post d d'}, fieldLexicon.Takes (.rnm next) pre x post d d' ↔
      ∃ g, x = ':' :: g ∧ IsGroup g ∧ GroupEnds barred g post ∧ d' = d.count 1 := by
    intro pre x post d d'
    simp only [takes_group hnext hnoted', hf]
    constructor
    · rintro ⟨_, ⟨g, rfl, hg, hend, rfl⟩, rfl⟩
      exact ⟨g, rfl, hg, hend, rfl⟩
    · rintro ⟨g, rfl, hg, hend, rfl⟩
      exact ⟨d, ⟨g, rfl, hg, hend, rfl⟩, rfl⟩
  refine ⟨htakes, htakes', ?_, ?_⟩
  · intro pre post d d'
    rw [refuses_group hfirst hnoted hplain.1]
    simp only [htakes]
    exact and_congr_left fun _ => ⟨fun h g rest heq hg hend => h g rest _ heq ⟨hg, hend, rfl⟩,
      fun h g rest _ heq hg => h g rest heq hg.1 hg.2.1⟩
  · intro pre post d d'
    rw [refuses_group hnext hnoted' hplain.2]
    simp only [htakes']
    refine and_congr_left fun _ => ⟨fun h t ht g rest heq hg hend => ?_, fun h x rest _ heq hx => ?_⟩
    · exact h (':' :: g) rest _ (by rw [ht, heq, List.cons_append]) ⟨g, rfl, hg, hend, rfl⟩
    · obtain ⟨g, rfl, hg, hend, -⟩ := hx
      exact h (g ++ rest) heq g rest rfl hg hend

/-- Groups before a double colon. -/
theorem grouping_before : Grouping [] (.rnm "h16") (.rnm "h16c") := by
  have hnext : (("h16c" : Text), Expr.cat [.ch 58, .rep 1 (some 4) Rules.hexDigit]) ∈ Rules.uri := uri_rule _ 16 rfl
  refine grouping_of (uri_rule "h16" 15 rfl) hnext (by simp [actions]) (by simp [actions]) ⟨rfl, rfl⟩ takes_hexDigits ?_
  intro pre x post d d'
  simp only [takes_colon_cat, takes_cat_one, takes_hexDigits]

/-- Groups that leave an IPv4 address alone. -/
theorem grouping_groups : Grouping ['.'] (.rnm "h16n") (.rnm "h16cn") := by
  have hnext : (("h16cn" : Text), Expr.cat [.ch 58, .rep 1 (some 4) Rules.hexDigit, .not (.ch 46)]) ∈ Rules.uri :=
    uri_rule _ 18 rfl
  refine grouping_of (uri_rule "h16n" 17 rfl) hnext (by simp [actions]) (by simp [actions]) ⟨rfl, rfl⟩ takes_hexDigits_not ?_
  intro pre x post d d'
  simp only [takes_colon_cat, takes_hexDigits_not]

/-- Before a run of groups, or where it has ended, a group ends. -/
theorem groupEnds_run {gs : List Text} (hcolon : ':' ∉ barred) (hpost : GroupsEnd barred post) (g : Text) :
    GroupEnds barred g (gs.flatMap (':' :: ·) ++ post) := by
  cases gs with
  | nil => exact ⟨.inr fun c hc => (hpost.1 c hc).1, fun c hc => (hpost.1 c hc).2⟩
  | cons g' gs =>
    have hhead : ∀ c, (((g' :: gs).flatMap (':' :: ·)) ++ post).head? = some c → c = ':' := by
      intro c hc
      simpa using hc.symm
    refine ⟨.inr fun c hc => ?_, fun c hc => ?_⟩
    · rw [hhead c hc]
      decide
    · rwa [hhead c hc]

namespace Grouping

variable (h : Grouping barred first next)
include h

/-- **The rounds of a run** count what they read. -/
theorem of_many {max : Option Nat} {done : Nat} {xs : List Text} {b : Bool}
    (hmany : fieldLexicon.Many next max done pre xs post d d' b) :
    ∃ gs : List Text, xs = gs.map (':' :: ·) ∧ (∀ g ∈ gs, IsGroup g) ∧ d' = d.count gs.length := by
  induction hmany with
  | atEnd => exact ⟨[], rfl, by simp, rfl⟩
  | atMax => exact ⟨[], rfl, by simp, rfl⟩
  | refused _ _ here =>
    obtain ⟨-, rfl⟩ := h.refuses_next.1 here
    exact ⟨[], rfl, by simp, rfl⟩
  | emptied _ _ here =>
    obtain ⟨g, hg, -⟩ := h.takes_next.1 here
    cases hg
  | more _ _ here _ ih =>
    obtain ⟨g, rfl, hg, -, rfl⟩ := h.takes_next.1 here
    obtain ⟨gs, rfl, hgs, rfl⟩ := ih
    exact ⟨g :: gs, rfl, List.forall_mem_cons.2 ⟨hg, hgs⟩, by simp [Nat.add_comm]⟩

theorem many (hcolon : ':' ∉ barred) (hpost : GroupsEnd barred post) : ∀ (gs : List Text) (done : Nat) (pre : Text)
    (d : UriCapture), (∀ g ∈ gs, IsGroup g) →
    fieldLexicon.Many next none done pre (gs.map (':' :: ·)) post d (d.count gs.length) false
  | [], done, pre, d, _ => by
    by_cases hnil : post = []
    · subst hnil
      exact .atEnd
    · exact .refused hnil (by simp) (h.refuses_next.2 ⟨hpost.2, rfl⟩)
  | g :: gs, done, pre, d, hgs => by
    rw [List.forall_mem_cons] at hgs
    have hround : fieldLexicon.Takes next pre (':' :: g) (gs.flatMap (':' :: ·) ++ post) d (d.count 1) :=
      h.takes_next.2 ⟨g, rfl, hgs.1, groupEnds_run hcolon hpost g, rfl⟩
    have hrest := many hcolon hpost gs (done + 1) (pre ++ ':' :: g) (d.count 1) hgs.2
    rw [count_count, Nat.add_comm 1] at hrest
    exact .more (by simp) (List.cons_ne_nil _ _) (by rwa [← List.flatMap_def]) hrest

/-- **A run of groups is read** as a list of groups, and each is counted once. -/
theorem of_takes (htakes : fieldLexicon.Takes (.cat [first, .star next]) pre x post d d') :
    ∃ gs, gs ≠ [] ∧ x = [':'].intercalate gs ∧ (∀ g ∈ gs, IsGroup g) ∧ d' = d.count gs.length := by
  obtain ⟨g, y, d₁, rfl, hfirst, hrest⟩ := takes_cat_cons.1 htakes
  obtain ⟨hg, -, rfl⟩ := h.takes_first.1 hfirst
  rw [takes_cat_one, Expr.star, takes_rep (by simp)] at hrest
  obtain ⟨xs, b, rfl, hmany, -⟩ := hrest
  obtain ⟨gs, rfl, hgs, rfl⟩ := h.of_many hmany
  refine ⟨g :: gs, List.cons_ne_nil _ _, ?_, List.forall_mem_cons.2 ⟨hg, hgs⟩, ?_⟩
  · rw [intercalate_cons, List.flatMap_def]
  · rw [count_count, List.length_cons, Nat.add_comm]

theorem takes {gs : List Text} (hcolon : ':' ∉ barred) (hpost : GroupsEnd barred post) (hne : gs ≠ [])
    (hgs : ∀ g ∈ gs, IsGroup g) :
    fieldLexicon.Takes (.cat [first, .star next]) pre ([':'].intercalate gs) post d (d.count gs.length) := by
  cases gs with
  | nil => exact absurd rfl hne
  | cons g gs =>
    rw [List.forall_mem_cons] at hgs
    have hmany := h.many hcolon hpost gs 0 (pre ++ g) (d.count 1) hgs.2
    rw [count_count, Nat.add_comm] at hmany
    refine takes_cat_cons.2 ⟨g, _, _, intercalate_cons ':' g gs, h.takes_first.2 ⟨hgs.1, groupEnds_run hcolon hpost g, rfl⟩, ?_⟩
    rw [takes_cat_one, Expr.star, takes_rep (by simp)]
    exact ⟨_, false, List.flatMap_def.symm, hmany, .inr (Nat.zero_le _)⟩

/-- A run of groups never fails once it has begun. -/
theorem refuses : fieldLexicon.Refuses (.cat [first, .star next]) pre post d d' ↔ NoGroup barred post ∧ d' = d := by
  rw [refuses_cat_cons, h.refuses_first]
  refine or_iff_left ?_
  rintro ⟨g, y, d₁, rfl, -, hy⟩
  exact unfailing_star (refuses_cat_one.1 hy)

end Grouping

/-! ## Where groups end -/

theorem noGroup_nil : NoGroup barred [] := by
  intro g rest heq hg
  exact absurd (List.append_eq_nil_iff.1 heq.symm).1 hg.ne_nil

theorem noGroup_colon : NoGroup barred (':' :: t) := by
  intro g rest heq hg
  cases g with
  | nil => exact absurd rfl hg.ne_nil
  | cons c g =>
    obtain ⟨rfl, -⟩ := List.cons.inj heq
    exact absurd (hg.2.2 ':' List.mem_cons_self) (by decide)

theorem isHexDigit_of_isDigit {c : Char} (h : c.isDigit = true) : isHexDigit c = true := by
  simp [isHexDigit, h]

/-- **The digits that an IPv4 address begins with are no group:** a dot follows them. -/
theorem noGroup_octets (h : FourOctets t) : NoGroup ['.'] t := by
  obtain ⟨a, b, c, e, rfl, ⟨ha, hlen, -⟩, -⟩ := h
  intro g rest heq hg hend
  have hnodot : '.' ∉ g := fun hdot => absurd (hg.2.2 '.' hdot) (by decide)
  rcases List.append_eq_append_iff.1 heq with ⟨z, rfl, hz⟩ | ⟨z, rfl, hz⟩
  · cases z with
    | nil => exact hend.2 '.' (by rw [← show _ = rest from hz]; rfl) (by simp)
    | cons k z =>
      obtain ⟨rfl, -⟩ := List.cons.inj hz
      simp at hnodot
  · cases z with
    | nil =>
      obtain rfl : rest = _ := hz
      exact hend.2 '.' rfl (by simp)
    | cons k z =>
      -- a digit of the octet is left
      have hk : isHexDigit k = true := isHexDigit_of_isDigit (ha k (by simp))
      subst hz
      rcases hend.1 with hfull | hstop
      · simp at hlen
        omega
      · exact hstop k rfl hk

theorem groupsEnd_nil : GroupsEnd barred [] := ⟨by simp, by simp⟩

theorem groupsEnd_colons : GroupsEnd [] ("::" ++ t) := by
  refine ⟨fun c hc => ?_, fun t' ht => ?_⟩
  · obtain rfl : ':' = c := by simpa using hc
    exact ⟨by decide, by simp⟩
  · obtain rfl : ':' :: t = t' := (List.cons.inj ht).2
    exact noGroup_colon

theorem groupsEnd_octets (h : FourOctets t) : GroupsEnd ['.'] (':' :: t) := by
  refine ⟨fun c hc => ?_, fun t' ht => ?_⟩
  · obtain rfl : ':' = c := by simpa using hc
    exact ⟨by decide, by decide⟩
  · obtain rfl := (List.cons.inj ht).2
    exact noGroup_octets h

/-! ## Groups and an IPv4 address -/

/-- An IPv4 address that is given up is not counted. -/
theorem sameCount_of_refuses_ipv4 (h : fieldLexicon.Refuses (.rnm "IPv4address") pre post d d') : SameCount d d' := by
  have hleft : ∀ a ∈ actions.drop 19, ∀ p input o d,
      ((a.2 p input o d).2.groups, (a.2 p input o d).2.ipv4) = (d.groups, d.ipv4) := by
    simp only [actions, List.drop_succ_cons, List.drop_zero, List.forall_mem_cons]
    refine ⟨fun p input o d => ?_, fun p input o d => ?_, by simp⟩
    · rw [onOctet, Callback.judging]
      cases p.state <;> rfl
    · rw [onOctetDigit, Callback.onMatch]
      dsimp only
      split <;> rfl
  have hbody := (refuses_rnm_onMatch (defines_noted (uri_rule "IPv4address" 19 rfl) (f := onIpv4) (by simp [actions]))).1 h
  exact (fieldMatcher_bundles.2.leaves (n := bundledDepth) judges_uri 19 (fun d => (d.groups, d.ipv4)) hleft (by decide)
    hbody).symm

/-- The words of an address: groups, and perhaps an IPv4 address for the last two. -/
def IsWords (gs : List Text) (v : Option Text) : Prop := (∀ g ∈ gs, IsGroup g) ∧ ∀ w ∈ v, FourOctets w

/-- **An IPv4 address after a colon, or nothing,** and no group is counted. -/
theorem of_takes_ipv4Tail (h : fieldLexicon.Takes Rules.ipv4Tail pre x post d d') :
    ∃ v : Option Text, x = v.toList.flatMap (':' :: ·) ∧ (∀ w ∈ v, FourOctets w) ∧ d'.groups = d.groups ∧
      d'.ipv4 = (d.ipv4 || v.isSome) := by
  rcases takes_opt.1 h with ⟨rfl, -, rfl⟩ | ⟨-, hread | ⟨rfl, hnone⟩⟩
  · exact ⟨none, rfl, by simp, rfl, by simp⟩
  · obtain ⟨v, rfl, hv⟩ := takes_colon_cat.1 hread
    rw [takes_cat_one] at hv
    obtain ⟨hv, hgroups, hipv4⟩ := fourOctets_of_takes hv
    exact ⟨some v, by simp, by simpa using hv, hgroups, by simpa using hipv4⟩
  · have hsame : SameCount d d' := by
      rcases refuses_cat_cons.1 hnone with hcolon | ⟨y, z, d₁, rfl, hcolon, hrest⟩
      · obtain rfl := ((class_ch ':').refuses.1 hcolon).2
        rfl
      · obtain rfl := ((class_ch ':').takes.1 hcolon).2
        exact sameCount_of_refuses_ipv4 (refuses_cat_one.1 hrest)
    rw [sameCount_iff] at hsame
    exact ⟨none, rfl, by simp, hsame.1.symm, by simp [hsame.2]⟩

theorem takes_ipv4Tail {v : Option Text} (hv : ∀ w ∈ v, FourOctets w) (pre : Text) (d : UriCapture) :
    ∃ d', fieldLexicon.Takes Rules.ipv4Tail pre (v.toList.flatMap (':' :: ·)) [] d d' ∧ d'.groups = d.groups ∧
      d'.ipv4 = (d.ipv4 || v.isSome) := by
  cases v with
  | none => exact ⟨d, takes_opt.2 (.inl ⟨rfl, rfl, rfl⟩), rfl, by simp⟩
  | some v =>
    obtain ⟨d', h, hgroups, hipv4⟩ := takes_fourOctets (hv v rfl) (pre ++ [':']) d
    have hread := takes_colon_cat.2 ⟨v, rfl, takes_cat_one.2 h⟩
    exact ⟨d', takes_opt.2 (.inr ⟨by simp, .inl (by simpa using hread)⟩), hgroups, by simpa using hipv4⟩

/-- **Groups and perhaps an IPv4 address after them:** what is read is counted and noted, and nothing else. -/
theorem words_of_takes (h : fieldLexicon.Takes (.cat [Rules.groups, Rules.ipv4Tail]) pre x post d d') :
    ∃ gs v, gs ≠ [] ∧ IsWords gs v ∧ x = [':'].intercalate (gs ++ v.toList) ∧ d'.groups = d.groups + gs.length ∧
      d'.ipv4 = (d.ipv4 || v.isSome) := by
  obtain ⟨y, z, d₁, rfl, hy, hz⟩ := takes_cat_cons.1 h
  obtain ⟨gs, hne, rfl, hgs, rfl⟩ := grouping_groups.of_takes hy
  obtain ⟨v, rfl, hv, hgroups, hipv4⟩ := of_takes_ipv4Tail (takes_cat_one.1 hz)
  exact ⟨gs, v, hne, ⟨hgs, hv⟩, (intercalate_append hne ':' v).symm, hgroups, hipv4⟩

theorem takes_words {gs : List Text} {v : Option Text} (hne : gs ≠ []) (hwords : IsWords gs v) (pre : Text) (d : UriCapture) :
    ∃ d', fieldLexicon.Takes (.cat [Rules.groups, Rules.ipv4Tail]) pre ([':'].intercalate (gs ++ v.toList)) [] d d' ∧
      d'.groups = d.groups + gs.length ∧ d'.ipv4 = (d.ipv4 || v.isSome) := by
  have hends : GroupsEnd ['.'] (v.toList.flatMap (':' :: ·)) := by
    cases v with
    | none => exact groupsEnd_nil
    | some v => simpa using groupsEnd_octets (hwords.2 v rfl)
  have hrun : fieldLexicon.Takes Rules.groups pre ([':'].intercalate gs) (v.toList.flatMap (':' :: ·)) d (d.count gs.length) :=
    grouping_groups.takes (by decide) hends hne hwords.1
  obtain ⟨d', htail, hgroups, hipv4⟩ := takes_ipv4Tail hwords.2 (pre ++ [':'].intercalate gs) (d.count gs.length)
  refine ⟨d', takes_cat_cons.2 ⟨_, _, _, intercalate_append hne ':' v, ?_, takes_cat_one.2 htail⟩, hgroups, hipv4⟩
  rw [List.append_nil]
  exact hrun

/-- Before no group and in front of an IPv4 address, they refuse. -/
theorem refuses_words (h : NoGroup ['.'] post) (pre : Text) (d : UriCapture) :
    fieldLexicon.Refuses (.cat [Rules.groups, Rules.ipv4Tail]) pre post d d :=
  refuses_cat_cons.2 (.inl (grouping_groups.refuses.2 ⟨h, rfl⟩))

/-! ## The two forms -/

/-- An IPv4 address stands for two groups. -/
theorem fullGroups_eq_of {v : Option Text} (h : d.ipv4 = v.isSome) : d.fullGroups + 2 * v.toList.length = 8 := by
  rw [fullGroups, h]
  cases v <;> rfl

theorem takes_nodcolon : fieldLexicon.Takes (.rnm "nodcolon") pre x post d d' ↔
    fieldLexicon.Takes (.cat [Rules.groups, Rules.ipv4Tail]) pre x post (newAddress d) d' ∧
      (x ≠ [] → decide (d'.groups = d'.fullGroups) = true) :=
  takes_rnm_judging (defines_noted (uri_rule "nodcolon" 13 rfl) (f := onAllGroups) (by simp [actions]))

/-- **The form without a double colon** has all its words. -/
theorem of_takes_nodcolon (h : fieldLexicon.Takes (.rnm "nodcolon") pre x post d d') :
    ∃ gs v, gs ≠ [] ∧ IsWords gs v ∧ x = [':'].intercalate (gs ++ v.toList) ∧ gs.length + 2 * v.toList.length = 8 := by
  obtain ⟨hbody, hcount⟩ := takes_nodcolon.1 h
  obtain ⟨gs, v, hne, hwords, rfl, hgroups, hipv4⟩ := words_of_takes hbody
  have hx : [':'].intercalate (gs ++ v.toList) ≠ [] := by
    obtain ⟨g, gs, rfl⟩ := List.exists_cons_of_ne_nil hne
    rw [List.cons_append, intercalate_cons]
    simp [(hwords.1 g List.mem_cons_self).ne_nil]
  have hall := of_decide_eq_true (hcount hx)
  have hfull := fullGroups_eq_of (hipv4.trans (Bool.false_or _))
  rw [hgroups] at hall
  have hzero : (newAddress d).groups = 0 := rfl
  exact ⟨gs, v, hne, hwords, rfl, by omega⟩

theorem takes_words_nodcolon {gs : List Text} {v : Option Text} (hwords : IsWords gs v)
    (hall : gs.length + 2 * v.toList.length = 8) (pre : Text) (d : UriCapture) :
    ∃ d', fieldLexicon.Takes (.rnm "nodcolon") pre ([':'].intercalate (gs ++ v.toList)) [] d d' := by
  have hne : gs ≠ [] := by
    rintro rfl
    cases v <;> cases hall
  obtain ⟨d', hbody, hgroups, hipv4⟩ := takes_words hne hwords pre (newAddress d)
  refine ⟨d', takes_nodcolon.2 ⟨hbody, fun _ => decide_eq_true ?_⟩⟩
  have hfull := fullGroups_eq_of (hipv4.trans (Bool.false_or _))
  have hzero : (newAddress d).groups = 0 := rfl
  rw [hgroups]
  omega

/-- The rules before a double colon, and behind it. -/
def beforeGap : Expr := .opt (.cat [.rnm "h16", .star (.rnm "h16c")])

def afterGap : Expr := .alt [.cat [Rules.groups, Rules.ipv4Tail], .opt (.rnm "IPv4address")]

theorem takes_dcolon : fieldLexicon.Takes (.rnm "dcolon") pre x post d d' ↔
    fieldLexicon.Takes (.cat [beforeGap, .tbs "::", afterGap]) pre x post (newAddress d) d' ∧
      (x ≠ [] → decide (d'.groups < d'.fullGroups) = true) :=
  takes_rnm_judging (defines_noted (uri_rule "dcolon" 14 rfl) (f := onSomeGroups) (by simp [actions]))

theorem of_takes_beforeGap (h : fieldLexicon.Takes beforeGap pre x post d d') :
    ∃ ls, x = [':'].intercalate ls ∧ (∀ g ∈ ls, IsGroup g) ∧ d' = d.count ls.length := by
  rcases takes_opt.1 h with ⟨rfl, -, rfl⟩ | ⟨-, hread | ⟨rfl, hnone⟩⟩
  · exact ⟨[], rfl, by simp, rfl⟩
  · obtain ⟨ls, -, hls⟩ := grouping_before.of_takes hread
    exact ⟨ls, hls⟩
  · exact ⟨[], rfl, by simp, (grouping_before.refuses.1 hnone).2⟩

theorem takes_beforeGap {ls : List Text} (hls : ∀ g ∈ ls, IsGroup g) (pre rest : Text) (d : UriCapture) :
    fieldLexicon.Takes beforeGap pre ([':'].intercalate ls) ("::" ++ rest) d (d.count ls.length) := by
  by_cases hnil : ls = []
  · subst hnil
    exact takes_opt.2 (.inr ⟨by simp, .inr ⟨rfl, grouping_before.refuses.2 ⟨noGroup_colon, rfl⟩⟩⟩)
  · exact takes_opt.2 (.inr ⟨by simp, .inl (grouping_before.takes (by simp) groupsEnd_colons hnil hls)⟩)

/-- **Behind a double colon,** up to the end of the text. -/
theorem of_takes_afterGap (h : fieldLexicon.Takes afterGap pre x [] d d') :
    ∃ rs v, IsWords rs v ∧ x = [':'].intercalate (rs ++ v.toList) ∧ d'.groups = d.groups + rs.length ∧
      d'.ipv4 = (d.ipv4 || v.isSome) := by
  rcases takes_alt_cons.1 h with hwords | ⟨d₁, hnone, hlast⟩
  · obtain ⟨rs, v, -, hwords⟩ := words_of_takes hwords
    exact ⟨rs, v, hwords⟩
  · -- groups that refuse have counted nothing
    obtain rfl : d₁ = d := by
      rcases refuses_cat_cons.1 hnone with hnone | ⟨_, _, _, -, -, hnone⟩
      · exact (grouping_groups.refuses.1 hnone).2
      · exact (unfailing_opt (refuses_cat_one.1 hnone)).elim
    rcases takes_alt_cons.1 hlast with hlast | ⟨_, -, hnil⟩
    · rcases takes_opt.1 hlast with ⟨rfl, -, rfl⟩ | ⟨hne, hv | ⟨rfl, -⟩⟩
      · exact ⟨[], none, ⟨by simp, by simp⟩, rfl, rfl, by simp⟩
      · obtain ⟨hv, hgroups, hipv4⟩ := fourOctets_of_takes hv
        exact ⟨[], some x, ⟨by simp, by simpa using hv⟩, by simp [List.intercalate], hgroups, by simpa using hipv4⟩
      · exact absurd rfl hne
    · exact absurd hnil takes_alt_nil

theorem takes_afterGap {rs : List Text} {v : Option Text} (hwords : IsWords rs v) (pre : Text) (d : UriCapture) :
    ∃ d', fieldLexicon.Takes afterGap pre ([':'].intercalate (rs ++ v.toList)) [] d d' ∧
      d'.groups = d.groups + rs.length ∧ d'.ipv4 = (d.ipv4 || v.isSome) := by
  by_cases hnil : rs = []
  · subst hnil
    cases v with
    | none =>
      have hnone := refuses_words noGroup_nil pre d
      exact ⟨d, takes_alt_cons.2 (.inr ⟨d, hnone, takes_alt_cons.2 (.inl (takes_opt.2 (.inl ⟨rfl, rfl, rfl⟩)))⟩), rfl,
        by simp⟩
    | some v =>
      have hv := hwords.2 v rfl
      obtain ⟨d', h, hgroups, hipv4⟩ := takes_fourOctets hv pre d
      have hne : v ≠ [] := by
        obtain ⟨a, b, c, e, rfl, -⟩ := hv
        simp
      have hnone := refuses_words (noGroup_octets hv) pre d
      refine ⟨d', takes_alt_cons.2 (.inr ⟨d, ?_, takes_alt_cons.2 (.inl (takes_opt.2 (.inr ⟨?_, .inl ?_⟩)))⟩), hgroups,
        by simpa using hipv4⟩
      · simpa [List.intercalate] using hnone
      · simpa [List.intercalate] using hne
      · simpa [List.intercalate] using h
  · obtain ⟨d', h, hcount⟩ := takes_words hnil hwords pre d
    exact ⟨d', takes_alt_cons.2 (.inl h), hcount⟩

/-- **The form with a double colon** leaves a group out at least. -/
theorem of_takes_dcolon (h : fieldLexicon.Takes (.rnm "dcolon") pre x [] d d') :
    ∃ ls rs v, (∀ g ∈ ls, IsGroup g) ∧ IsWords rs v ∧
      x = [':'].intercalate ls ++ ("::" ++ [':'].intercalate (rs ++ v.toList)) ∧
      ls.length + rs.length + 2 * v.toList.length < 8 := by
  obtain ⟨hbody, hcount⟩ := takes_dcolon.1 h
  obtain ⟨_, _, _, rfl, hbefore, hrest⟩ := takes_cat_cons.1 hbody
  obtain ⟨ls, rfl, hls, rfl⟩ := of_takes_beforeGap hbefore
  obtain ⟨y, rfl, hafter⟩ := takes_cat_tbs.1 hrest
  obtain ⟨rs, v, hwords, rfl, hgroups, hipv4⟩ := of_takes_afterGap (takes_cat_one.1 hafter)
  have hsome := of_decide_eq_true (hcount (by simp))
  have hfull := fullGroups_eq_of (hipv4.trans (Bool.false_or _))
  have hzero : (newAddress d).groups = 0 := rfl
  rw [hgroups, groups_count] at hsome
  exact ⟨ls, rs, v, hls, hwords, rfl, by omega⟩

theorem takes_words_dcolon {ls rs : List Text} {v : Option Text} (hls : ∀ g ∈ ls, IsGroup g) (hwords : IsWords rs v)
    (hsome : ls.length + rs.length + 2 * v.toList.length < 8) (pre : Text) (d : UriCapture) :
    ∃ d', fieldLexicon.Takes (.rnm "dcolon") pre ([':'].intercalate ls ++ ("::" ++ [':'].intercalate (rs ++ v.toList))) []
      d d' := by
  have hbefore := takes_beforeGap hls pre ([':'].intercalate (rs ++ v.toList)) (newAddress d)
  obtain ⟨d', hafter, hgroups, hipv4⟩ := takes_afterGap hwords (pre ++ [':'].intercalate ls ++ "::")
    ((newAddress d).count ls.length)
  refine ⟨d', takes_dcolon.2 ⟨takes_cat_cons.2 ⟨_, _, _, rfl, by rwa [List.append_nil],
    takes_cat_tbs.2 ⟨_, rfl, takes_cat_one.2 hafter⟩⟩, fun _ => decide_eq_true ?_⟩⟩
  have hfull := fullGroups_eq_of (hipv4.trans (Bool.false_or _))
  have hzero : (newAddress d).groups = 0 := rfl
  rw [hgroups, groups_count]
  omega

/-! ## Which form is meant -/

/-- **Words that stand before a double colon** are begun by the groups there: none of them has a colon, so none reaches
past it. -/
theorem words_before_gap {rest gap : Text} : ∀ {ws ls : List Text}, ws ≠ [] → (∀ w ∈ ws, w ≠ [] ∧ ':' ∉ w) →
    (∀ l ∈ ls, ':' ∉ l) → [':'].intercalate ws ++ rest = [':'].intercalate ls ++ ("::" ++ gap) →
    ws.length ≤ ls.length ∧ ∀ w ∈ ws, ∃ l ∈ ls, w <+: l
  | [], _, hne, _, _, _ => absurd rfl hne
  | w :: ws, [], _, hws, _, heq => by
    obtain ⟨hw, hcolon⟩ := hws w List.mem_cons_self
    obtain ⟨c, w, rfl⟩ := List.exists_cons_of_ne_nil hw
    rw [intercalate_cons] at heq
    obtain ⟨rfl, -⟩ : c = ':' ∧ _ := List.cons.inj heq
    simp at hcolon
  | w :: ws, l :: ls, _, hws, hls, heq => by
    rw [List.forall_mem_cons] at hws hls
    rw [intercalate_cons, intercalate_cons, List.append_assoc, List.append_assoc] at heq
    obtain ⟨tail, htail⟩ : ∃ tail, ls.flatMap (':' :: ·) ++ ("::" ++ gap) = ':' :: tail := by
      cases ls with
      | nil => exact ⟨_, rfl⟩
      | cons l' ls => exact ⟨_, rfl⟩
    cases ws with
    | nil =>
      rw [List.flatMap_nil, List.nil_append, htail] at heq
      have hbegins : w <+: l := by
        rcases List.append_eq_append_iff.1 heq with ⟨z, hl, -⟩ | ⟨z, hw, hz⟩
        · exact ⟨z, hl.symm⟩
        · cases z with
          | nil => exact ⟨[], by rw [List.append_nil, hw, List.append_nil]⟩
          | cons k z =>
            obtain ⟨rfl, -⟩ := List.cons.inj hz
            exact absurd (by rw [hw]; simp) hws.1.2
      exact ⟨by simp, by simpa using .inl hbegins⟩
    | cons w' ws =>
      rw [List.flatMap_cons, htail, List.cons_append, List.cons_append] at heq
      obtain ⟨rfl, hafter⟩ := eq_of_append_cons hws.1.2 hls.1 heq
      have hnext : [':'].intercalate (w' :: ws) ++ rest = tail := by rw [intercalate_cons, hafter]
      cases ls with
      | nil =>
        -- the next word would begin with the second colon
        obtain rfl : ':' :: gap = tail := (List.cons.inj htail).2
        obtain ⟨hw', hcolon⟩ := hws.2 w' List.mem_cons_self
        obtain ⟨c, w', rfl⟩ := List.exists_cons_of_ne_nil hw'
        rw [intercalate_cons] at hnext
        obtain ⟨rfl, -⟩ := List.cons.inj hnext
        simp at hcolon
      | cons l' ls =>
        obtain rfl : [':'].intercalate (l' :: ls) ++ ("::" ++ gap) = tail := by
          rw [List.flatMap_cons, List.cons_append, List.cons_append] at htail
          rw [intercalate_cons]
          exact (List.cons.inj htail).2
        obtain ⟨hlen, hall⟩ := words_before_gap (List.cons_ne_nil w' ws) hws.2 hls.2 hnext
        refine ⟨Nat.succ_le_succ hlen, fun v hv => ?_⟩
        rcases List.mem_cons.1 hv with rfl | hv
        · exact ⟨_, List.mem_cons_self, List.prefix_refl _⟩
        · exact (hall v hv).imp fun k hk => ⟨List.mem_cons_of_mem _ hk.1, hk.2⟩

theorem IsGroup.notMem {g : Text} (h : IsGroup g) {c : Char} (hc : isHexDigit c = false) : c ∉ g := fun hmem => by
  rw [h.2.2 c hmem] at hc
  cases hc

/-- A word of an address is not empty and has no colon. -/
theorem FourOctets.word (h : FourOctets t) : (t ≠ [] ∧ ':' ∉ t) ∧ '.' ∈ t := by
  obtain ⟨a, b, c, e, rfl, ha, hb, hc, he⟩ := h
  have hno : ∀ o, IsOctet o → ':' ∉ o := fun o ho hmem => absurd (ho.1 ':' hmem) (by decide)
  exact ⟨⟨by simp, by simp [hno a ha, hno b hb, hno c hc, hno e he]⟩, by simp⟩

/-- **Before a double colon the other form refuses:** there are too few groups in front of it. -/
theorem refuses_nodcolon {ls : List Text} (gap : Text) (hls : ∀ g ∈ ls, IsGroup g) (hlen : ls.length < 8) (pre : Text)
    (d : UriCapture) : ∃ d', fieldLexicon.Refuses (.rnm "nodcolon") pre ([':'].intercalate ls ++ ("::" ++ gap)) d d' := by
  have hname : ("nodcolon" : Text) ∈ bundledNames := uri_name "nodcolon" 13 rfl
  refine (decides_field (bundled_within hname) (bundledRules_stay _ hname) pre _ d).resolve_right ?_
  rintro ⟨x, rest, d', heq, h⟩
  obtain ⟨gs, v, hne, ⟨hgs, hv⟩, rfl, hall⟩ := of_takes_nodcolon h
  have hwords : ∀ w ∈ gs ++ v.toList, w ≠ [] ∧ ':' ∉ w := by
    simp only [List.forall_mem_append, Option.mem_toList]
    exact ⟨fun g hg => ⟨(hgs g hg).ne_nil, (hgs g hg).notMem (by decide)⟩, fun w hw => (hv w hw).word.1⟩
  obtain ⟨hcount, hbegun⟩ := words_before_gap (by simp [hne]) hwords (fun l hl => (hls l hl).notMem (by decide)) heq.symm
  cases v with
  | none =>
    simp at hall hcount
    omega
  | some w =>
    -- the dots of an IPv4 address would be in a group
    obtain ⟨l, hl, hw⟩ := hbegun w (by simp)
    exact (hls l hl).notMem (by decide) (hw.subset (hv w rfl).word.2)

/-- What is read as an IPv6 address up to the end of the text. -/
theorem takes_ipv6_iff : (∃ d', fieldLexicon.Takes (.rnm "IPv6address") pre x [] d d') ↔
    (∃ gs v, IsWords gs v ∧ x = [':'].intercalate (gs ++ v.toList) ∧ gs.length + 2 * v.toList.length = 8) ∨
    ∃ ls rs v, (∀ g ∈ ls, IsGroup g) ∧ IsWords rs v ∧
      x = [':'].intercalate ls ++ ("::" ++ [':'].intercalate (rs ++ v.toList)) ∧
      ls.length + rs.length + 2 * v.toList.length < 8 := by
  have hdef := @defines_unnoted "IPv6address" _ (uri_rule _ 12 rfl) (by simp [unnotedNames])
  simp only [takes_rnm hdef, takes_alt_cons, takes_alt_nil, and_false, exists_false, or_false, List.append_nil]
  constructor
  · rintro ⟨d', h | ⟨d₁, -, h⟩⟩
    · obtain ⟨gs, v, -, h⟩ := of_takes_nodcolon h
      exact .inl ⟨gs, v, h⟩
    · exact .inr (of_takes_dcolon h)
  · rintro (⟨gs, v, hwords, rfl, hall⟩ | ⟨ls, rs, v, hls, hwords, rfl, hsome⟩)
    · obtain ⟨d', h⟩ := takes_words_nodcolon hwords hall pre d
      exact ⟨d', .inl h⟩
    · obtain ⟨d₁, hnone⟩ := refuses_nodcolon ([':'].intercalate (rs ++ v.toList)) hls (by omega) pre d
      obtain ⟨d', h⟩ := takes_words_dcolon hls hwords hsome pre d₁
      exact ⟨d', .inr ⟨d₁, hnone, h⟩⟩

/-- **A text is accepted as an IPv6 address if and only if it is one of these:** eight groups; six groups and an IPv4
address; or groups on both sides of a double colon, of which an IPv4 address may be the end, seven at most, or five before
an IPv4 address.  What is accepted as an IPv4 address is left to its rule. -/
theorem ipv6_accepted_iff (t : Text) : matchesRule "IPv6address" t = .ok true ↔
    (∃ gs, gs.length = 8 ∧ (∀ g ∈ gs, IsGroup g) ∧ t = [':'].intercalate gs) ∨
    (∃ gs v, gs.length = 6 ∧ (∀ g ∈ gs, IsGroup g) ∧ matchesRule "IPv4address" v = .ok true ∧
      t = [':'].intercalate gs ++ ':' :: v) ∨
    ∃ ls rs, (∀ g ∈ ls, IsGroup g) ∧ (∀ g ∈ rs, IsGroup g) ∧
      ((ls.length + rs.length ≤ 7 ∧ t = [':'].intercalate ls ++ ("::" ++ [':'].intercalate rs)) ∨
        ∃ v, matchesRule "IPv4address" v = .ok true ∧ ls.length + rs.length ≤ 5 ∧
          t = [':'].intercalate ls ++ ("::" ++ [':'].intercalate (rs ++ [v]))) := by
  have hname : ("IPv6address" : Text) ∈ bundledNames := uri_name "IPv6address" 12 rfl
  simp only [matchesRule_iff hname, takes_ipv6_iff, matches_ipv4]
  constructor
  · rintro (⟨gs, v, ⟨hgs, hv⟩, rfl, hall⟩ | ⟨ls, rs, v, hls, ⟨hrs, hv⟩, rfl, hsome⟩)
    · cases v with
      | none => exact .inl ⟨gs, by simpa using hall, hgs, by simp⟩
      | some v =>
        have hsix : gs.length = 6 := by simpa using hall
        have hne : gs ≠ [] := by
          rintro rfl
          cases hsix
        exact .inr (.inl ⟨gs, v, hsix, hgs, hv v rfl, by rw [intercalate_append hne]; simp⟩)
    · refine .inr (.inr ⟨ls, rs, hls, hrs, ?_⟩)
      cases v with
      | none =>
        simp at hsome
        exact .inl ⟨by omega, by simp⟩
      | some v =>
        simp at hsome
        exact .inr ⟨v, hv v rfl, by omega, rfl⟩
  · rintro (⟨gs, hlen, hgs, rfl⟩ | ⟨gs, v, hlen, hgs, hv, rfl⟩ | ⟨ls, rs, hls, hrs, ⟨hlen, rfl⟩ | ⟨v, hv, hlen, rfl⟩⟩)
    · exact .inl ⟨gs, none, ⟨hgs, by simp⟩, by simp, by simpa using hlen⟩
    · have hne : gs ≠ [] := by
        rintro rfl
        cases hlen
      exact .inl ⟨gs, some v, ⟨hgs, by simpa using hv⟩, by rw [intercalate_append hne]; simp, by simp [hlen]⟩
    · exact .inr ⟨ls, rs, none, hls, ⟨hrs, by simp⟩, by simp, by simp; omega⟩
    · exact .inr ⟨ls, rs, some v, hls, ⟨hrs, by simpa using hv⟩, rfl, by simp; omega⟩

end SignIn
