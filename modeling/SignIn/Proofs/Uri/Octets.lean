import SignIn.Proofs.Uri.Authority
/-!
# IPv4 addresses

The value of an octet is added up digit by digit by one callback and judged by another.  Read as a whole, the rule of an
octet takes up to three digits, as many as there are, and their value is at most 255 (`takes_octet`).

It may take none.  RFC 3986 wants a digit at least, and so do the rules of the 16-bit groups, but this one begins its
count at nothing: three dots are an address (`ipv4_three_dots`).  Where no octet is empty the rule is right
(`ipv4_filled_iff`).
-/
namespace SignIn

open Lexicon UriCapture

variable {pre x post t : Text} {d d' : UriCapture}

/-- **An octet as its rule reads it:** three digits at most, of a value that a byte has. -/
def IsOctet (x : Text) : Prop := (∀ c ∈ x, c.isDigit = true) ∧ x.length ≤ 3 ∧ decimalValue x ≤ 255

instance (x : Text) : Decidable (IsOctet x) := @instDecidableAnd _ _ (List.decidableBAll _ x) inferInstance

/-- Octets and the dots between them. -/
def FourOctets (t : Text) : Prop :=
  ∃ a b c e, t = a ++ '.' :: (b ++ '.' :: (c ++ '.' :: e)) ∧ IsOctet a ∧ IsOctet b ∧ IsOctet c ∧ IsOctet e

/-! ## One octet -/

/-- The note that is made of a digit. -/
def octetDigit (d : UriCapture) (c : Char) : UriCapture := { d with octet := d.octet * 10 + decimalValue [c] }

theorem foldl_octetDigit (x : Text) (d : UriCapture) :
    x.foldl octetDigit d = { d with octet := Nat.ofDigitChars 10 x d.octet } := by
  induction x generalizing d with
  | nil => rfl
  | cons c x ih =>
    have hvalue : decimalValue [c] = c.toNat - '0'.toNat := by
      rw [decimalValue, Nat.ofDigitChars_cons, Nat.ofDigitChars_nil, Nat.mul_zero, Nat.zero_add]
    rw [List.foldl_cons, ih, Nat.ofDigitChars_cons, octetDigit, hvalue, Nat.mul_comm]

theorem scans_octetDigit : fieldLexicon.Scans (.rnm "dec-digit") (·.isDigit = true) octetDigit := by
  have hdef := defines_noted (uri_rule "dec-digit" 21 rfl) (f := onOctetDigit) (by simp [actions])
  constructor
  · intro pre x post d d'
    rw [takes_rnm_onMatch hdef]
    simp only [class_digit.takes]
    constructor
    · rintro ⟨_, ⟨⟨c, rfl, hc⟩, rfl⟩, rfl⟩
      have hfirst : phraseText (pre ++ ([c] ++ post)).toArray pre.length 1 = [c] := window_length pre [c] post
      refine ⟨c, rfl, hc, ?_⟩
      rw [if_neg (List.cons_ne_nil _ _), hfirst, octetDigit]
    · rintro ⟨c, rfl, hc, rfl⟩
      have hfirst : phraseText (pre ++ ([c] ++ post)).toArray pre.length 1 = [c] := window_length pre [c] post
      refine ⟨d, ⟨⟨c, rfl, hc⟩, rfl⟩, ?_⟩
      rw [if_neg (List.cons_ne_nil _ _), hfirst, octetDigit]
  · intro pre post d d'
    rw [refuses_rnm_onMatch hdef, class_digit.refuses]

/-- **The rule of an octet takes up to three digits,** as many as there are, if a byte has their value. -/
theorem takes_octet : fieldLexicon.Takes (.rnm "dec-octet") pre x post d d' ↔
    IsOctet x ∧ (x.length = 3 ∨ ∀ c, post.head? = some c → ¬ c.isDigit = true) ∧ d' = { d with octet := decimalValue x } := by
  have hdef := defines_noted (uri_rule "dec-octet" 20 rfl) (f := onOctet) (by simp [actions])
  rw [takes_rnm_judging hdef, takes_rep_scans scans_octetDigit (by simp), foldl_octetDigit]
  constructor
  · rintro ⟨⟨hdigits, -, hmost, hstop, rfl⟩, hvalue⟩
    refine ⟨⟨hdigits, hmost 3 rfl, ?_⟩, hstop.imp_left fun h => (Option.some.inj h).symm, rfl⟩
    by_cases hx : x = []
    · subst hx
      exact Nat.zero_le _
    · exact of_decide_eq_true (hvalue hx)
  · rintro ⟨⟨hdigits, hlen, hvalue⟩, hstop, rfl⟩
    refine ⟨⟨hdigits, Nat.zero_le _, fun m hm => ?_, hstop.imp_left fun h => congrArg some h.symm, rfl⟩, fun _ => ?_⟩
    · rwa [← Option.some.inj hm]
    · exact decide_eq_true hvalue

/-! ## Four of them -/

/-- **What is noted of an IPv4 address:** that it was read, and its last octet. -/
theorem takes_ipv4 : fieldLexicon.Takes (.rnm "IPv4address") pre x post d d' ↔
    ∃ a b c e, x = a ++ '.' :: (b ++ '.' :: (c ++ '.' :: e)) ∧ (IsOctet a ∧ IsOctet b ∧ IsOctet c ∧ IsOctet e) ∧
      (e.length = 3 ∨ ∀ k, post.head? = some k → ¬ k.isDigit = true) ∧
      d' = { d with octet := decimalValue e, ipv4 := true } := by
  have hdef := defines_noted (uri_rule "IPv4address" 19 rfl) (f := onIpv4) (by simp [actions])
  have hdot : ∀ y : Text, ∀ k, (['.'] ++ y).head? = some k → ¬ k.isDigit = true := by
    intro y k hk
    cases hk
    decide
  rw [takes_rnm_onMatch hdef]
  simp only [takes_cat_cons, takes_cat_nil, takes_tbs, takes_octet]
  constructor
  · rintro ⟨_, ⟨a, _, _, rfl, ⟨ha, -, rfl⟩, _, _, _, rfl, ⟨rfl, rfl⟩,
      b, _, _, rfl, ⟨hb, -, rfl⟩, _, _, _, rfl, ⟨rfl, rfl⟩,
      c, _, _, rfl, ⟨hc, -, rfl⟩, _, _, _, rfl, ⟨rfl, rfl⟩,
      e, _, _, rfl, ⟨he, hstop, rfl⟩, rfl, rfl⟩, rfl⟩
    refine ⟨a, b, c, e, by simp, ⟨ha, hb, hc, he⟩, by simpa using hstop, ?_⟩
    rw [if_neg (by simp)]
  · rintro ⟨a, b, c, e, rfl, ⟨ha, hb, hc, he⟩, hstop, rfl⟩
    refine ⟨_, ⟨a, _, _, rfl, ⟨ha, .inr (hdot _), rfl⟩, ['.'], _, _, rfl, ⟨rfl, rfl⟩,
      b, _, _, rfl, ⟨hb, .inr (hdot _), rfl⟩, ['.'], _, _, rfl, ⟨rfl, rfl⟩,
      c, _, _, rfl, ⟨hc, .inr (hdot _), rfl⟩, ['.'], _, _, rfl, ⟨rfl, rfl⟩,
      e, [], _, (List.append_nil e).symm, ⟨he, hstop, rfl⟩, rfl, rfl⟩, ?_⟩
    rw [if_neg (by simp)]

/-- An address that is read is four octets. -/
theorem fourOctets_of_takes (h : fieldLexicon.Takes (.rnm "IPv4address") pre x post d d') :
    FourOctets x ∧ d'.groups = d.groups ∧ d'.ipv4 = true := by
  obtain ⟨a, b, c, e, rfl, ⟨ha, hb, hc, he⟩, -, rfl⟩ := takes_ipv4.1 h
  exact ⟨⟨a, b, c, e, rfl, ha, hb, hc, he⟩, rfl, rfl⟩

/-- Four octets are read at the end of the text. -/
theorem takes_fourOctets (h : FourOctets x) (pre : Text) (d : UriCapture) :
    ∃ d', fieldLexicon.Takes (.rnm "IPv4address") pre x [] d d' ∧ d'.groups = d.groups ∧ d'.ipv4 = true := by
  obtain ⟨a, b, c, e, rfl, ha, hb, hc, he⟩ := h
  exact ⟨_, takes_ipv4.2 ⟨a, b, c, e, rfl, ⟨ha, hb, hc, he⟩, .inr (by simp), rfl⟩, rfl, rfl⟩

theorem matches_ipv4 : matchesRule "IPv4address" t = .ok true ↔ FourOctets t := by
  have hname : ("IPv4address" : Text) ∈ bundledNames := uri_name "IPv4address" 19 rfl
  rw [matchesRule_iff hname]
  constructor
  · rintro ⟨d', h⟩
    exact (fourOctets_of_takes h).1
  · intro h
    obtain ⟨d', h, -⟩ := takes_fourOctets h [] .empty
    exact ⟨d', h⟩

theorem fourOctets_iff : FourOctets t ↔
    ∃ octets : List Text, octets.length = 4 ∧ t = ['.'].intercalate octets ∧ ∀ o ∈ octets, IsOctet o := by
  constructor
  · rintro ⟨a, b, c, e, rfl, ha, hb, hc, he⟩
    exact ⟨[a, b, c, e], rfl, by simp [List.intercalate], by simp [ha, hb, hc, he]⟩
  · rintro ⟨octets, hlen, rfl, hall⟩
    obtain ⟨a, b, c, e, rfl⟩ := List.length_eq_four.1 hlen
    simp only [List.forall_mem_cons] at hall
    exact ⟨a, b, c, e, by simp [List.intercalate], hall.1, hall.2.1, hall.2.2.1, hall.2.2.2.1⟩

/-- **A text is accepted as an IPv4 address if and only if it is four octets with dots between them,** each of three
digits at most and of a value up to 255. -/
theorem ipv4_accepted_iff (t : Text) : matchesRule "IPv4address" t = .ok true ↔
    ∃ octets : List Text, octets.length = 4 ∧ t = ['.'].intercalate octets ∧
      ∀ o ∈ octets, (∀ c ∈ o, c.isDigit = true) ∧ o.length ≤ 3 ∧ decimalValue o ≤ 255 :=
  matches_ipv4.trans fourOctets_iff

/-- No digit is needed. -/
theorem ipv4_three_dots : matchesRule "IPv4address" "..." = .ok true ∧
    ¬ ∃ octets : List Text, octets.length = 4 ∧ ("..." : Text) = ['.'].intercalate octets ∧
      ∀ o ∈ octets, (∀ c ∈ o, c.isDigit = true) ∧ 1 ≤ o.length ∧ o.length ≤ 3 ∧ decimalValue o ≤ 255 := by
  refine ⟨matches_ipv4.2 ⟨[], [], [], [], rfl, by decide⟩, ?_⟩
  rintro ⟨octets, hlen, htext, hall⟩
  have htotal := congrArg List.length htext
  obtain ⟨a, b, c, e, rfl⟩ := List.length_eq_four.1 hlen
  have ha := (hall a (by simp)).2.1
  simp [List.intercalate] at htotal
  omega

/-- **Where no octet is empty** the rule accepts what RFC 3986 does, and octets with leading zeros. -/
theorem ipv4_filled_iff (t : Text) : matchesRule "IPv4address" t = .ok true ∧ [] ∉ t.splitOn '.' ↔
    ∃ octets : List Text, octets.length = 4 ∧ t = ['.'].intercalate octets ∧
      ∀ o ∈ octets, (∀ c ∈ o, c.isDigit = true) ∧ 1 ≤ o.length ∧ o.length ≤ 3 ∧ decimalValue o ≤ 255 := by
  have hsplit : ∀ octets : List Text, octets.length = 4 → (∀ o ∈ octets, ∀ c ∈ o, c.isDigit = true) →
      (['.'].intercalate octets).splitOn '.' = octets := fun octets hlen hall => by
    refine List.splitOn_intercalate '.' (fun o ho hdot => ?_) (fun hnil => ?_)
    · exact absurd (hall o ho '.' hdot) (by decide)
    · rw [hnil] at hlen
      cases hlen
  rw [matches_ipv4, fourOctets_iff]
  constructor
  · rintro ⟨⟨octets, hlen, rfl, hall⟩, hfilled⟩
    rw [hsplit octets hlen fun o ho => (hall o ho).1] at hfilled
    refine ⟨octets, hlen, rfl, fun o ho => ?_⟩
    obtain ⟨hdigits, hmost, hvalue⟩ := hall o ho
    refine ⟨hdigits, List.length_pos_of_ne_nil fun hnil => ?_, hmost, hvalue⟩
    exact hfilled (hnil ▸ ho)
  · rintro ⟨octets, hlen, rfl, hall⟩
    refine ⟨⟨octets, hlen, rfl, fun o ho => ?_⟩, ?_⟩
    · obtain ⟨hdigits, -, hmost, hvalue⟩ := hall o ho
      exact ⟨hdigits, hmost, hvalue⟩
    · rw [hsplit octets hlen fun o ho => (hall o ho).1]
      intro hnil
      exact absurd (hall [] hnil).2.1 (by simp)

end SignIn
