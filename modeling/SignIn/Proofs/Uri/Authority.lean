import SignIn.Proofs.Rules.Total
import SignIn.Proofs.Uri.Paths
/-!
# Authorities

In two places the next character does not tell what is meant.  Whether there is user information is known only at an `@`
further on; but the host and the port before the next delimiter have none, so the rule declines there
(`declines_userinfoAt`).  And a host may begin like an IPv4 address and be a name; but what is read as an address is all
that would be read as a name (`recognizes_name`).
-/
namespace SignIn

open Computability Lexicon Production

/-! ## User information and names -/

theorem recognizes_userinfo : fieldLexicon.Recognizes (.rnm "userinfo") userinfo (HeadIn "/?#[]@") := by
  have hrule : (("userinfo" : Text), Expr.star (.alt ([Rules.lower, Rules.upper, Rules.digit] ++ ([.rnm "pct-encoded"] ++
      [.ch 33, .ch 36, .trg 38 46, .trg 58 59, .ch 61, .ch 95, .ch 126])))) ∈ Rules.uri := uri_rule _ 8 rfl
  have hitem : fieldLexicon.Token (.alt ([Rules.lower, Rules.upper, Rules.digit] ++ ([.rnm "pct-encoded"] ++
      [.ch 33, .ch 36, .trg 38 46, .trg 58 59, .ch 61, .ch 95, .ch 126]))) (encoded IsUserChar) := by
    refine token_encoded class_alphanum (class_ranges [(33, 33), (36, 36), (38, 46), (58, 59), (61, 61), (95, 95),
      (126, 126)]) (fun c => ?_) (fun c => ?_) ?_
    · rw [isUserChar_iff, isAlphanum_iff]
      simp
      omega
    · rw [isAlphanum_iff]
      simp
      omega
    · rw [isUserChar_iff]
      decide
  have hstar : fieldLexicon.Recognizes _ (encoded IsUserChar)∗ (HeadIn "/?#[]@") :=
    (hitem.star opens_encoded.nil_notMem).mono fun t => opens_encoded.apart userChar_outside
  rw [userinfo, userChar_eq]
  exact hstar.rnm (defines_unnoted hrule (by simp [unnotedNames]))

theorem recognizes_userinfoAt {E : Text → Prop} : fieldLexicon.Recognizes (.rnm "userinfo-at") (userinfo * word ['@']) E := by
  have hat : fieldLexicon.Class (.ch 64) (· = '@') := class_ch '@'
  have hbody : fieldLexicon.Recognizes (.cat [.rnm "userinfo", .ch 64]) (userinfo * oneOf (· = '@')) E :=
    recognizes_cat_cons recognizes_userinfo hat.token.recognizes.cat_one (by
      rintro z ⟨c, rfl, rfl⟩ t -
      exact headIn_cons (by simp))
  rw [← word_eq_oneOf] at hbody
  exact recognizes_noted (f := UriCapture.onUserinfoAt) hbody (uri_rule "userinfo-at" 7 rfl) (by simp [UriCapture.actions])
    fun _ _ _ _ _ => rfl

theorem token_nameChar : fieldLexicon.Token (.rnm "reg-name-char") (encoded IsNameChar) := by
  have hrule : (("reg-name-char" : Text), Expr.alt ([Rules.lower, Rules.upper, Rules.digit] ++ ([.rnm "pct-encoded"] ++
      [.ch 33, .ch 36, .trg 38 46, .ch 59, .ch 61, .ch 95, .ch 126]))) ∈ Rules.uri := uri_rule _ 23 rfl
  refine (token_encoded class_alphanum (class_ranges [(33, 33), (36, 36), (38, 46), (59, 59), (61, 61), (95, 95),
      (126, 126)]) (fun c => ?_) (fun c => ?_) ?_).rnm (defines_unnoted hrule (by simp [unnotedNames]))
  · rw [isNameChar_iff, isAlphanum_iff]
    simp
    omega
  · rw [isAlphanum_iff]
    simp
    omega
  · rw [isNameChar_iff]
    decide

theorem regName_eq : regName = (encoded IsNameChar)∗ := congrArg (·∗) nameChar_eq

theorem recognizes_regName : fieldLexicon.Recognizes (.rnm "reg-name") regName (Apart (encoded IsNameChar)) := by
  have hrule : (("reg-name" : Text), Expr.star (.rnm "reg-name-char")) ∈ Rules.uri := uri_rule _ 22 rfl
  rw [regName_eq]
  exact (token_nameChar.star opens_encoded.nil_notMem).rnm (defines_unnoted hrule (by simp [unnotedNames]))

/-! ## Names that begin like an IPv4 address -/

/-- A character of an IPv4 address. -/
def IsDotted (c : Char) : Prop := c.isDigit = true ∨ c = '.'

theorem isNameChar_of_isDotted {c : Char} (h : IsDotted c) : IsNameChar c := by
  rw [IsDotted, isDigit_iff, ← Char.toNat_inj] at h
  rw [isNameChar_iff]
  simp at h
  omega

theorem mem_regName_of_isDotted {x : Text} (h : ∀ c ∈ x, IsDotted c) : x ∈ regName := by
  rw [regName_eq]
  exact mem_kstar_of_forall fun c hc => .inl ⟨c, rfl, isNameChar_of_isDotted (h c hc)⟩

theorem within_ipv4Address : Within IsDotted ipv4Address := by
  have hdigit : Within IsDotted digit := within_oneOf fun c hc => .inl hc
  have hrange : ∀ lo hi : Char, 48 ≤ lo.toNat → hi.toNat ≤ 57 → Within IsDotted (digitIn lo hi) := by
    intro lo hi hlo hhi
    refine within_oneOf fun c hc => .inl ((isDigit_iff c).2 ?_)
    rw [Char.le_def, Char.le_def, UInt32.le_iff_toNat_le, UInt32.le_iff_toNat_le] at hc
    simp only [Char.toNat_val] at hc
    omega
  have hword : ∀ {t : Text}, (∀ c ∈ t, c.isDigit = true) → Within IsDotted (word t) :=
    fun h => within_word fun c hc => .inl (h c hc)
  have hoctet : Within IsDotted decOctet :=
    ((((hdigit.add ((hrange '1' '9' (by decide) (by decide)).mul hdigit)).add
      (((hword (by simp)).mul hdigit).mul hdigit)).add
      (((hword (by simp)).mul (hrange '0' '4' (by decide) (by decide))).mul hdigit)).add
      ((hword (by simp)).mul (hrange '0' '5' (by decide) (by decide))))
  have hdot : Within IsDotted (word ['.']) := within_word (by simp [IsDotted])
  exact (((((hoctet.mul hdot).mul hoctet).mul hdot).mul hoctet).mul hdot).mul hoctet

theorem regName_of_ipv4Address {x : Text} (h : x ∈ ipv4Address) : x ∈ regName :=
  mem_regName_of_isDotted (within_ipv4Address x h)

variable {pre x post : Text} {d d' : UriCapture} {e : Expr}

theorem takes_ipv4_isDotted (h : fieldLexicon.Takes (.rnm "IPv4address") pre x post d d') : ∀ c ∈ x, IsDotted c := by
  have hdigit : ∀ {pre x post d d'}, fieldLexicon.Takes (.rnm "dec-digit") pre x post d d' → ∀ c ∈ x, IsDotted c := by
    intro pre x post d d' h
    obtain ⟨d₁, d₂, hbody⟩ := judging_fields.takes_body (List.mem_append_right _ (uri_rule "dec-digit" 21 rfl)) h
    obtain ⟨⟨c, rfl, hc⟩, -⟩ := class_digit.takes.1 hbody
    rw [List.forall_mem_singleton]
    exact .inl hc
  have hoctet : ∀ {pre x post d d'}, fieldLexicon.Takes (.rnm "dec-octet") pre x post d d' → ∀ c ∈ x, IsDotted c := by
    intro pre x post d d' h
    obtain ⟨d₁, d₂, hbody⟩ := judging_fields.takes_body (List.mem_append_right _ (uri_rule "dec-octet" 20 rfl)) h
    exact forall_of_takes_rep hdigit hbody
  have hdot : ∀ {pre x post : Text} {d d' : UriCapture}, fieldLexicon.Takes (.tbs ".") pre x post d d' →
      ∀ c ∈ x, IsDotted c := by
    intro pre x post d d' h
    obtain ⟨rfl, -⟩ := takes_tbs.1 h
    simp [IsDotted]
  obtain ⟨d₁, d₂, hbody⟩ := judging_fields.takes_body (List.mem_append_right _ (uri_rule "IPv4address" 19 rfl)) h
  refine forall_of_takes_cat ?_ hbody
  simp only [List.forall_mem_cons]
  exact ⟨hoctet, hdot, hoctet, hdot, hoctet, hdot, hoctet, by simp⟩

/-- **An expression takes something or refuses,** if its rules do not reach themselves. -/
theorem decides_field {n : Nat} (hwithin : e.within bundledRules n = true) (hstays : e.stays bundledRules [] [] n = true)
    (pre post : Text) (d : UriCapture) : (∃ d', fieldLexicon.Refuses e pre post d d') ∨
      ∃ x rest d', post = x ++ rest ∧ fieldLexicon.Takes e pre x rest d d' := by
  have hkeeps : fieldLexicon.Keeps (pre ++ post).toArray (fun _ => True) e :=
    fieldMatcher_bundles.2.keeps (fun r _ _ _ f hf => ⟨judges_uri _ hf, fun _ _ => trivial, fun _ _ _ _ => trivial⟩) (by simp)
      hstays
  have hns : fieldLexicon.outcome (pre ++ post).toArray e pre.length d ≠ .starved := by
    have hrun : fieldLexicon.run (pre ++ post).toArray n e pre.length d ≠ .starved :=
      run_ne_starved (bundled_distinct fieldMatcher) hwithin pre.length d
    rwa [outcome_eq_run hrun]
  obtain ⟨p, d', hp, -⟩ := (hkeeps pre.length d (by simp) trivial).resolve_left hns
  rcases taken_or_refused hp with ⟨-, -, h⟩ | ⟨-, x, rest, hx, -, h⟩
  · exact .inl ⟨d', h⟩
  · exact .inr ⟨x, rest, d', hx, h⟩

/-- An expression reaches no callback. -/
def Plain (e : Expr) : Prop := e.stays bundledRules [] ((UriCapture.actions.take 21).map (·.1)) (bundledDepth + 1) = true

instance : Decidable (Plain e) := inferInstanceAs (Decidable (_ = true))

theorem Plain.eq_of_refuses (he : Plain e) (h : fieldLexicon.Refuses e pre post d d') : d' = d :=
  fieldMatcher_bundles.2.leaves judges_uri 21 id (by simp [UriCapture.actions]) he h

/-- An IPv4 address where no name goes on. -/
def wholeAddress : Expr := .cat [.rnm "IPv4address", .not (.rnm "reg-name-char")]

theorem address_decided : wholeAddress.within bundledRules bundledDepth = true ∧
    wholeAddress.stays bundledRules [] [] bundledDepth = true := by decide

/-- **A name that begins like an IPv4 address** is read as one if nothing of it would be left, and else as a name. -/
theorem recognizes_name : fieldLexicon.Recognizes (.alt [wholeAddress, .rnm "reg-name"]) regName
    (Apart (encoded IsNameChar)) := by
  have hwhole : ∀ {pre x post d d'}, fieldLexicon.Takes wholeAddress pre x post d d' → x ∈ regName ∧
      Apart (encoded IsNameChar) post := by
    intro pre x post d d' h
    obtain ⟨y, z, d₁, rfl, hy, hz⟩ := takes_cat_cons.1 h
    obtain ⟨z, z', d₂, rfl, hz, hz'⟩ := takes_cat_cons.1 hz
    obtain ⟨rfl, rfl⟩ := takes_cat_nil.1 hz'
    obtain ⟨rfl, hnone⟩ := takes_not.1 hz
    exact ⟨by simpa using mem_regName_of_isDotted (takes_ipv4_isDotted hy), (token_nameChar.refuses.1 hnone).1⟩
  intro pre x post d hpost
  constructor
  · rintro ⟨d', h⟩
    rcases takes_alt_cons.1 h with h | ⟨d₁, -, h⟩
    · exact (hwhole h).1
    · exact (recognizes_regName.alt_one pre x post d₁ hpost).1 ⟨d', h⟩
  · intro hx
    rcases decides_field address_decided.1 address_decided.2 pre (x ++ post) d with ⟨d₁, h⟩ | ⟨y, rest, d', heq, h⟩
    · obtain ⟨d', h'⟩ := (recognizes_regName.alt_one pre x post d₁ hpost).2 hx
      exact ⟨d', takes_alt_cons.2 (.inr ⟨d₁, h, h'⟩)⟩
    · -- both the address and the name go on to the same end
      obtain ⟨hy, hrest⟩ := hwhole h
      obtain ⟨d₁, hname⟩ := (recognizes_regName pre x post d hpost).2 hx
      obtain ⟨d₂, hname'⟩ := (recognizes_regName pre y rest d hrest).2 hy
      obtain ⟨rfl, rfl, -⟩ := hname.unique hname' heq
      exact ⟨d', takes_alt_cons.2 (.inl h)⟩

/-! ## Hosts in brackets -/

theorem recognizes_ipvFuture : fieldLexicon.Recognizes (.rnm "IPvFuture") ipvFuture (HeadIn "]") := by
  have hrule : (("IPvFuture" : Text), Expr.cat [.tls "v", .plus Rules.hexDigit, .tls ".", .plus (.alt [Rules.lower,
      Rules.upper, Rules.digit, .ch 33, .ch 36, .trg 38 46, .trg 58 59, .ch 61, .ch 95, .ch 126])]) ∈ Rules.uri :=
    uri_rule _ 11 rfl
  have hversion : fieldLexicon.Class (.tls ['v']) fun c => c = 'v' ∨ c = 'V' := (class_folded 'v').congr fun c => by
    have hsmall : ('v' : Char).toLower.toNat = 118 := rfl
    rw [← Char.toNat_inj, ← Char.toNat_inj, ← Char.toNat_inj, toNat_toLower, hsmall]
    simp
    split <;> omega
  have hdot : fieldLexicon.Class (.tls ['.']) (· = '.') := class_tls (by decide)
  have hchar : fieldLexicon.Class (.alt [Rules.lower, Rules.upper, Rules.digit, .ch 33, .ch 36, .trg 38 46, .trg 58 59,
      .ch 61, .ch 95, .ch 126]) IsUserChar :=
    Class.congr (class_ranges [(97, 122), (65, 90), (48, 57), (33, 33), (36, 36), (38, 46), (58, 59), (61, 61), (95, 95),
      (126, 126)]) fun c => by
        rw [isUserChar_iff]
        simp
        omega
  have hchars : fieldLexicon.Recognizes (.plus _) (oneOf IsUserChar * (oneOf IsUserChar)∗) (HeadIn "]") :=
    (hchar.token.plus opens_oneOf.nil_notMem).mono fun t ht => opens_oneOf.apart (fun c hc hmem => by
      obtain rfl : c = ']' := by simpa using hmem
      exact userChar_outside ']' (.inl hc) (by simp)) ht
  have hend := recognizes_cat_cons (E := fun _ => True) hdot.token.recognizes hchars.cat_one fun _ _ _ _ => trivial
  have hdigits := recognizes_cat_cons (class_hexDigit.token.plus opens_oneOf.nil_notMem) hend fun z hz t _ => by
    obtain ⟨_, ⟨c, rfl, rfl⟩, _, -, rfl⟩ := Language.mem_mul.1 hz
    exact opens_oneOf.apart (S := ".") (fun c hc hmem => by
      obtain rfl : c = '.' := by simpa using hmem
      revert hc
      decide) (headIn_cons (by simp))
  have hall := recognizes_cat_cons (E := fun _ => True) hversion.token.recognizes hdigits fun _ _ _ _ => trivial
  have heq : ipvFuture = (oneOf fun c => c = 'v' ∨ c = 'V') * (oneOf (isHexDigit · = true) * (oneOf (isHexDigit · = true))∗ *
      (oneOf (· = '.') * (oneOf IsUserChar * (oneOf IsUserChar)∗))) := by
    rw [ipvFuture, word_eq_oneOf, word_eq_oneOf, word_eq_oneOf, word_eq_oneOf, unreserved, subDelims, oneOf_add, oneOf_add,
      oneOf_add, mul_assoc, mul_assoc]
    rfl
  rw [heq]
  exact hall.rnm (defines_unnoted hrule (by simp [unnotedNames]))

/-- No IPv6 address begins like one of a later version. -/
theorem declines_ipv6Address {t : Text} (ht : HeadIn "vV" t) : fieldLexicon.Declines (.rnm "IPv6address") t := by
  have hdigit : fieldLexicon.Declines Rules.hexDigit t :=
    class_hexDigit.token.declines (opens_oneOf.apart (fun c hc hmem => by
      have hcase : c = 'v' ∨ c = 'V' := by simpa using hmem
      rcases hcase with rfl | rfl <;> revert hc <;> decide) ht)
  have hdigits : fieldLexicon.Declines (.rep 1 (some 4) Rules.hexDigit) t := hdigit.plus (by simp)
  have hcolons : fieldLexicon.Declines (.cat [.tbs "::", .alt [.cat [Rules.groups, Rules.ipv4Tail],
      .opt (.rnm "IPv4address")]]) t := declines_literal (k := ':') (by simp) ht
  have hgroup : fieldLexicon.Declines (.rnm "h16n") t :=
    hdigits.cat.rnm_judged (defines_noted (uri_rule "h16n" 17 rfl) (f := UriCapture.onGroup) (by simp [UriCapture.actions]))
      (Callback.judges_onMatch _)
  have hbefore : fieldLexicon.Declines (.rnm "h16") t :=
    hdigits.rnm_judged (defines_noted (uri_rule "h16" 15 rfl) (f := UriCapture.onGroup) (by simp [UriCapture.actions]))
      (Callback.judges_onMatch _)
  have hall : fieldLexicon.Declines (.rnm "nodcolon") t :=
    hgroup.cat.cat.rnm_judged
      (defines_noted (uri_rule "nodcolon" 13 rfl) (f := UriCapture.onAllGroups) (by simp [UriCapture.actions]))
      (Callback.judges_judging _ _)
  have hsome : fieldLexicon.Declines (.rnm "dcolon") t :=
    (hbefore.cat.opt_cat hcolons).rnm_judged
      (defines_noted (uri_rule "dcolon" 14 rfl) (f := UriCapture.onSomeGroups) (by simp [UriCapture.actions]))
      (Callback.judges_judging _ _)
  exact (hall.alt (hsome.alt declines_alt_nil)).rnm
    (@defines_unnoted "IPv6address" _ (uri_rule _ 12 rfl) (by simp [unnotedNames]))

theorem ipLiteral_defines : fieldLexicon.Defines "IP-literal"
    (.cat [.tbs "[", .alt [.rnm "IPv6address", .rnm "IPvFuture"], .tbs "]"]) (some UriCapture.onIpLiteral) :=
  defines_noted (by simp [Rules.uri, Rules.host]) (by simp [UriCapture.actions])

theorem recognizes_ipLiteral {E : Text → Prop} : fieldLexicon.Recognizes (.rnm "IP-literal") ipLiteral E := by
  have haddress : fieldLexicon.Recognizes (.alt [.rnm "IPv6address", .rnm "IPvFuture"]) (ipv6Address + ipvFuture)
      (HeadIn "]") := by
    refine recognizes_alt_cons recognizes_ipv6Address recognizes_ipvFuture.alt_one (fun _ => id) fun z hz t _ =>
      declines_ipv6Address ?_
    simp only [ipvFuture, mul_assoc] at hz
    obtain ⟨v, hv, _, -, rfl⟩ := Language.mem_mul.1 hz
    rcases hv with rfl | rfl <;> exact headIn_cons (by simp)
  have hclosed : fieldLexicon.Recognizes (.cat [.alt [.rnm "IPv6address", .rnm "IPvFuture"], .tbs "]"])
      ((ipv6Address + ipvFuture) * word [']']) E :=
    recognizes_cat_cons haddress (token_tbs "]").recognizes.cat_one fun z hz t _ => by
      rw [show z = [']'] from hz]
      exact headIn_cons (by simp)
  have hbody := recognizes_cat_cons (E := fun _ => True) (token_tbs (l := fieldLexicon) "[").recognizes hclosed
    fun _ _ _ _ => trivial
  have heq : ipLiteral = word "[" * ((ipv6Address + ipvFuture) * word [']']) := mul_assoc _ _ _
  rw [heq]
  exact hbody.rnm_noted ipLiteral_defines (Callback.judges_onMatch _) fun _ _ _ _ _ => rfl

/-! ## Hosts, ports and what is before an `@` -/

theorem headIn_host (t : Text) (ht : HeadIn ":/?#" t) : Apart (encoded IsNameChar) t :=
  opens_encoded.apart (fun c hc hmem => nameChar_outside c hc (by
    have hdelim : (":/?#" : Text) ⊆ ":/?#[]@" := by simp
    exact hdelim hmem)) ht

/-- No name or user information has the delimiters around it. -/
theorem within_regName : Within (· ∉ (":/?#[]@" : Text)) regName := by
  rw [regName_eq]
  refine (within_encoded (fun c hc => nameChar_outside c (.inl hc)) (by simp) fun c hc => ?_).kstar
  rw [isHexDigit_iff] at hc
  simp [← Char.toNat_inj]
  omega

theorem within_userinfo : Within (· ∉ ("/?#[]@" : Text)) userinfo := by
  rw [userinfo, userChar_eq]
  refine (within_encoded (fun c hc => userChar_outside c (.inl hc)) (by simp) fun c hc => ?_).kstar
  rw [isHexDigit_iff] at hc
  simp [← Char.toNat_inj]
  omega

theorem host_eq : host = ipLiteral + regName := by
  ext x
  constructor
  · rintro ((h | h) | h)
    · exact .inl h
    · exact .inr (regName_of_ipv4Address h)
    · exact .inr h
  · rintro (h | h)
    · exact .inl (.inl h)
    · exact .inr h

theorem recognizes_host : fieldLexicon.Recognizes (.rnm "host") host (HeadIn ":/?#") := by
  have hrule : (("host" : Text), Expr.alt [.rnm "IP-literal", wholeAddress, .rnm "reg-name"]) ∈ Rules.uri := uri_rule _ 9 rfl
  have hbody : fieldLexicon.Recognizes (.alt [.rnm "IP-literal", wholeAddress, .rnm "reg-name"]) (ipLiteral + regName)
      (HeadIn ":/?#") := by
    refine recognizes_alt_cons (recognizes_ipLiteral (E := fun _ => True)) (recognizes_name.mono headIn_host)
      (fun _ _ => trivial) fun z hz t ht => ?_
    -- a name does not begin with a bracket, nor does what follows it
    have hopen : Apart (word ['[']) (z ++ t) := by
      rintro x rfl ⟨rest, hrest⟩
      cases z with
      | nil => exact absurd (ht '[' (by rw [← show _ = t from hrest]; rfl)) (by simp)
      | cons c z =>
        obtain ⟨rfl, -⟩ := List.cons.inj hrest
        exact within_regName _ hz '[' List.mem_cons_self (by simp)
    exact ((token_tbs "[").declines hopen).cat.rnm_judged ipLiteral_defines (Callback.judges_onMatch _)
  rw [host_eq]
  refine recognizes_noted (f := UriCapture.onHost) hbody hrule (by simp [UriCapture.actions]) fun x _ input o d => ?_
  unfold UriCapture.onHost
  cases (Phrase.ofLength x.length).state <;> rfl

theorem recognizes_port : fieldLexicon.Recognizes (.rnm "port") port (HeadIn "/?#") := by
  have hbody : fieldLexicon.Recognizes (.star Rules.digit) digit∗ (HeadIn "/?#") :=
    (class_digit.token.star opens_oneOf.nil_notMem).mono fun t ht => opens_oneOf.apart (fun c hc hmem => by
      rw [isDigit_iff] at hc
      simp [← Char.toNat_inj] at hmem
      omega) ht
  refine hbody.rnm_judged (defines_noted (uri_rule "port" 24 rfl) (by simp [UriCapture.actions])) judges_onPort
    fun x _ pre post d => ?_
  by_cases hx : x = []
  · subst hx
    exact iff_of_true rfl fun h => absurd rfl h
  · have hmatched : (Phrase.ofLength x.length).state = .matched := by simpa using hx
    simp only [UriCapture.onPort, hmatched, Phrase.length_ofLength, window_length]
    by_cases hport : decimalValue x ≤ greatestPort
    · simp [hport]
    · simp [hport, hx, (Phrase.ofLength_ne_fail _).symm]

/-- The first of the characters that end user information, if there is one. -/
def delimiter? (t : Text) : Option Char := (t.dropWhile fun c => decide (c ∉ ("/?#[]@" : Text))).head?

theorem delimiter?_append {x t : Text} (hx : ∀ c ∈ x, c ∉ ("/?#[]@" : Text)) : delimiter? (x ++ t) = delimiter? t := by
  rw [delimiter?, List.dropWhile_append_of_pos (by simpa using hx)]
  rfl

theorem delimiter?_cons {c : Char} {t : Text} (hc : c ∈ ("/?#[]@" : Text)) : delimiter? (c :: t) = some c := by
  rw [delimiter?, List.dropWhile_cons_of_neg (by simpa only [decide_eq_true_eq, not_not] using hc)]
  rfl

/-- **Before a host and a port** there is no user information unless it was meant: the next delimiter is no `@`. -/
theorem declines_userinfoAt {y t : Text} (hy : y ∈ host * optional (word [':'] * port)) (ht : HeadIn "/?#" t) :
    fieldLexicon.Declines (.rnm "userinfo-at") (y ++ t) := by
  have hnone : delimiter? (y ++ t) ≠ some '@' := by
    obtain ⟨h, hh, p, hp, rfl⟩ := Language.mem_mul.1 hy
    rw [host_eq] at hh
    rw [List.append_assoc]
    rcases hh with hh | hh
    · simp only [ipLiteral, mul_assoc] at hh
      obtain ⟨_, rfl, z, -, rfl⟩ := Language.mem_mul.1 hh
      rw [List.append_assoc, List.singleton_append, delimiter?_cons (by simp)]
      simp
    · have hport : ∀ c ∈ p, c ∉ ("/?#[]@" : Text) := by
        have hdigit : Within (· ∉ ("/?#[]@" : Text)) digit := within_oneOf fun c hc => by
          rw [isDigit_iff] at hc
          simp [← Char.toNat_inj]
          omega
        have hwithin : Within (· ∉ ("/?#[]@" : Text)) (optional (word [':'] * port)) :=
          within_one.add ((within_word (by simp)).mul fun x hx => hdigit.kstar x hx.1)
        exact hwithin p hp
      rw [delimiter?_append fun c hc hmem => within_regName h hh c hc (List.mem_cons_of_mem _ hmem), delimiter?_append hport]
      cases t with
      | nil => simp [delimiter?]
      | cons c t =>
        have hc : c ∈ ("/?#" : Text) := ht c rfl
        have hdelim : ("/?#" : Text) ⊆ "/?#[]@" := by simp
        rw [delimiter?_cons (hdelim hc)]
        rintro heq
        obtain rfl := Option.some.inj heq
        simp at hc
  have hname : ("userinfo-at" : Text) ∈ bundledNames := uri_name "userinfo-at" 7 rfl
  intro pre d
  refine (decides_field (bundled_within hname) (bundledRules_stay _ hname) pre (y ++ t) d).resolve_right ?_
  rintro ⟨x, rest, d', heq, htakes⟩
  obtain ⟨u, hu, _, rfl, rfl⟩ :=
    Language.mem_mul.1 ((recognizes_userinfoAt (E := fun _ => True) _ _ _ _ trivial).1 ⟨d', htakes⟩)
  refine hnone ?_
  rw [heq, List.append_assoc, delimiter?_append (within_userinfo u hu), List.singleton_append, delimiter?_cons (by simp)]

theorem recognizes_authority : fieldLexicon.Recognizes (.rnm "authority") authority (HeadIn "/?#") := by
  have hport : fieldLexicon.Recognizes (.opt (.cat [.tbs ":", .rnm "port"])) (optional (word [':'] * port)) (HeadIn "/?#") :=
    Recognizes.opt (recognizes_cat_cons (E := fun _ => True) (token_tbs ":").recognizes recognizes_port.cat_one
      fun _ _ _ _ => trivial) (fun _ => id) fun t ht => declines_literal (k := ':') (by simp) ht
  have hhost : fieldLexicon.Recognizes (.cat [.rnm "host", .opt (.cat [.tbs ":", .rnm "port"])])
      (host * optional (word [':'] * port)) (HeadIn "/?#") :=
    recognizes_cat_cons recognizes_host hport.cat_one fun z hz t ht => by
      rcases hz with rfl | hz
      · exact ht.mono (by simp)
      · obtain ⟨_, rfl, _, -, rfl⟩ := Language.mem_mul.1 hz
        exact headIn_cons (by simp)
  have huser : fieldLexicon.Recognizes (.opt (.rnm "userinfo-at")) (optional (userinfo * word ['@']))
      (fieldLexicon.Declines (.rnm "userinfo-at")) :=
    Recognizes.opt (recognizes_userinfoAt (E := fun _ => True)) (fun _ _ => trivial) fun _ => id
  have heq : authority = optional (userinfo * word ['@']) * (host * optional (word [':'] * port)) := mul_assoc _ _ _
  rw [heq]
  exact (recognizes_cat_cons huser hhost fun z hz t => declines_userinfoAt hz).rnm
    (defines_unnoted (uri_rule "authority" 2 rfl) (by simp [unnotedNames]))

end SignIn
