import SignIn.Proofs.Rules.Bundled
/-!
# The rules of single fields

What a field has to look like is said here without rules, and the bundled rules accept just that: a scheme, an address,
a statement, a version, a chain id, a nonce and a request id.  Domains and URIs are left to their rules; of these it is
only said which characters a text that they accept can have.
-/
namespace SignIn

open Lexicon

/-! ## What the fields look like -/

/-- Letters and digits, and what RFC 3986 lets stand for itself beside them. -/
def IsUnreserved (c : Char) : Prop := c.isAlphanum = true ∨ c ∈ ("-._~" : Text)

def IsSubDelim (c : Char) : Prop := c ∈ ("!$&'()*+,;=" : Text)

def IsReserved (c : Char) : Prop := c ∈ (":/?#[]@" : Text) ∨ IsSubDelim c

/-- **A letter, and then letters, digits and a few signs.** -/
def IsScheme (s : Text) : Prop :=
  ∃ c rest, s = c :: rest ∧ c.isAlpha = true ∧ ∀ d ∈ rest, d.isAlphanum = true ∨ d ∈ ("+-." : Text)

/-- **`0x` and the hexadecimal digits of 20 bytes.** -/
def IsAddress (a : Text) : Prop := ∃ digits, a = "0x" ++ digits ∧ digits.length = 40 ∧ ∀ c ∈ digits, isHexDigit c = true

/-- **A text of reserved and unreserved characters and blanks.** -/
def IsStatement (s : Text) : Prop := ∀ c ∈ s, IsReserved c ∨ IsUnreserved c ∨ c = ' '

/-- **Eight letters and digits at least.** -/
def IsNonce (n : Text) : Prop := 8 ≤ n.length ∧ ∀ c ∈ n, c.isAlphanum = true

/-- A character of a path that is written as it is. -/
def IsPathChar (c : Char) : Prop := IsUnreserved c ∨ IsSubDelim c ∨ c = ':' ∨ c = '@'

/-- A character of a path: as it is, or as the hexadecimal digits of an octet. -/
def IsPchar (p : Text) : Prop :=
  (∃ c, p = [c] ∧ IsPathChar c) ∨ ∃ g h, p = ['%', g, h] ∧ isHexDigit g = true ∧ isHexDigit h = true

/-- **Any number of characters of a path.** -/
def IsRequestId (r : Text) : Prop := ∃ ps : List Text, r = ps.flatten ∧ ∀ p ∈ ps, IsPchar p

/-! ### Their characters by their codes -/

theorem isAlphanum_iff (c : Char) : c.isAlphanum = true ↔
    ((65 ≤ c.toNat ∧ c.toNat ≤ 90) ∨ (97 ≤ c.toNat ∧ c.toNat ≤ 122)) ∨ (48 ≤ c.toNat ∧ c.toNat ≤ 57) := by
  rw [Char.isAlphanum, Bool.or_eq_true, isAlpha_iff, isDigit_iff]

theorem isUnreserved_iff (c : Char) : IsUnreserved c ↔
    (((65 ≤ c.toNat ∧ c.toNat ≤ 90) ∨ (97 ≤ c.toNat ∧ c.toNat ≤ 122)) ∨ (48 ≤ c.toNat ∧ c.toNat ≤ 57)) ∨
      c.toNat = 45 ∨ c.toNat = 46 ∨ c.toNat = 95 ∨ c.toNat = 126 := by
  rw [IsUnreserved, isAlphanum_iff]
  simp [← Char.toNat_inj]

theorem isSubDelim_iff (c : Char) : IsSubDelim c ↔
    c.toNat = 33 ∨ c.toNat = 36 ∨ (38 ≤ c.toNat ∧ c.toNat ≤ 44) ∨ c.toNat = 59 ∨ c.toNat = 61 := by
  simp only [IsSubDelim]
  simp [← Char.toNat_inj]
  omega

theorem isReserved_iff (c : Char) : IsReserved c ↔
    (c.toNat = 58 ∨ c.toNat = 47 ∨ c.toNat = 63 ∨ c.toNat = 35 ∨ c.toNat = 91 ∨ c.toNat = 93 ∨ c.toNat = 64) ∨
      c.toNat = 33 ∨ c.toNat = 36 ∨ (38 ≤ c.toNat ∧ c.toNat ≤ 44) ∨ c.toNat = 59 ∨ c.toNat = 61 := by
  rw [IsReserved, isSubDelim_iff]
  simp [← Char.toNat_inj]

/-! ## Matching a field -/

theorem map_success_eq {x : Except MatchError MatchReport} :
    x.map MatchReport.success = .ok true ↔ ∃ report, x = .ok report ∧ report.success = true := by
  cases x <;> simp [Except.map]

variable {name : Text} {body : Expr} {t x pre post : Text} {d d' : UriCapture}

/-- A text that matches a rule is taken whole by it, whatever rounds are counted in. -/
theorem takes_of_matchesRule {counter : Counter} (h : matchesRule name t counter = .ok true) :
    ∃ d', (fieldLexicon counter).Takes (.rnm name) [] t [] .empty d' := by
  rw [matchesRule, map_success_eq] at h
  obtain ⟨report, hresult, hsuccess⟩ := h
  exact ⟨_, takes_of_parse (fieldMatcher_bound counter).1 hresult hsuccess⟩

/-- **A text matches a rule if the rule takes it whole.** -/
theorem matchesRule_iff (h : name ∈ bundledNames) :
    matchesRule name t = .ok true ↔ ∃ d', fieldLexicon.Takes (.rnm name) [] t [] .empty d' := by
  refine ⟨takes_of_matchesRule, fun ⟨d', htakes⟩ => ?_⟩
  obtain ⟨report, hresult, hsuccess, -⟩ := parse_of_takes fieldMatcher_bundles.1 h htakes
  rw [matchesRule, map_success_eq]
  exact ⟨report, hresult, hsuccess⟩

theorem ofParsed?_isSome {parsed : Parsed UriCapture Unit} :
    (UriParts.ofParsed? parsed).isSome = true ↔ ∃ report, parsed.result = .ok report ∧ report.success = true := by
  unfold UriParts.ofParsed?
  cases parsed.result with
  | ok report =>
    dsimp only
    split <;> simp [*]
  | error e => simp

/-- The rules that fields are judged by. -/
def judgedNames : List String :=
  ["scheme", "authority", "address", "statement", "version", "chain-id", "nonce", "date-time", "request-id"]

theorem judged_bundled : ∀ name ∈ judgedNames, (name : Text) ∈ bundledNames := by decide

theorem uri_bundled : ("URI" : Text) ∈ bundledNames :=
  List.mem_map_of_mem (List.mem_append_right _ (List.mem_append_left _ (List.mem_append_left _ List.mem_cons_self)))

theorem splitUri?_isSome : (splitUri? t).isSome = true ↔ ∃ d', fieldLexicon.Takes (.rnm "URI") [] t [] .empty d' := by
  rw [← matchesRule_iff uri_bundled, matchesRule, map_success_eq, splitUri?, ofParsed?_isSome]

/-- The rules of fields and some of characters have no callbacks. -/
theorem plain_names : (∀ r ∈ Rules.fields ++ Rules.dateTime, r.1 ∉ UriCapture.actions.map (·.1)) ∧
    ∀ name ∈ ["pchar", "pct-encoded", "unreserved", "reserved"], (name : Text) ∉ UriCapture.actions.map (·.1) := by
  decide

/-- The rules of fields and of date-times have no callbacks. -/
theorem defines_field {counter : Counter} (h : (name, body) ∈ Rules.fields ++ Rules.dateTime) :
    (fieldLexicon counter).Defines name body none := by
  refine (fieldMatcher_bound counter).2.2.1.plain ?_ (by rw [actions_names]; exact plain_names.1 _ h)
  rcases List.mem_append.1 h with h | h
  · exact List.mem_append_left _ (List.mem_append_left _ (List.mem_append_right _ h))
  · exact List.mem_append_left _ (List.mem_append_right _ h)

theorem matches_field (h : (name, body) ∈ Rules.fields ++ Rules.dateTime) :
    matchesRule name t = .ok true ↔ ∃ d', fieldLexicon.Takes body [] t [] .empty d' := by
  have hname : name ∈ bundledNames := by
    refine List.mem_map_of_mem (f := (·.1)) (a := (name, body)) ?_
    rcases List.mem_append.1 h with h | h
    · exact List.mem_append_left _ (List.mem_append_left _ (List.mem_append_right _ h))
    · exact List.mem_append_left _ (List.mem_append_right _ h)
  simp only [matchesRule_iff hname, takes_rnm (defines_field h)]

/-- The rules of characters have no callbacks. -/
theorem defines_character {name : String} (h : ((name : Text), body) ∈ Rules.uriCharacters)
    (hname : name ∈ ["pchar", "pct-encoded", "unreserved", "reserved"]) : fieldLexicon.Defines name body none :=
  fieldMatcher_bundles.2.plain (List.mem_append_right _ (List.mem_append_right _ h)) (plain_names.2 name hname)

/-- **A rule of a field,** by its place in their list. -/
theorem field_rule (name : Text) (i : Nat) (h : Rules.fields[i]? = some (name, body)) :
    (name, body) ∈ Rules.fields ++ Rules.dateTime := List.mem_append_left _ (List.mem_of_getElem? h)

/-- **A rule of URIs,** by its place in their list. -/
theorem uri_rule (name : Text) (i : Nat) (h : Rules.uri[i]? = some (name, body)) : (name, body) ∈ Rules.uri :=
  List.mem_of_getElem? h

theorem uri_name (name : Text) (i : Nat) (h : Rules.uri[i]? = some (name, body)) : name ∈ bundledNames :=
  List.mem_map_of_mem (List.mem_append_right _ (uri_rule name i h))

/-! ## Field by field -/

theorem class_digit {D : Type} {l : Lexicon D} : l.Class Rules.digit fun c => c.isDigit = true :=
  (class_trg 48 57).congr fun c => (isDigit_iff c).symm

theorem class_hexDigit {D : Type} {l : Lexicon D} : l.Class Rules.hexDigit fun c => isHexDigit c = true :=
  Class.congr (class_ranges [(48, 57), (65, 70), (97, 102)]) fun c => by
    rw [isHexDigit_iff]
    simp
    omega

theorem class_letter {D : Type} {l : Lexicon D} : l.Class (.alt [Rules.lower, Rules.upper]) fun c => c.isAlpha = true :=
  Class.congr (class_ranges [(97, 122), (65, 90)]) fun c => by
    rw [isAlpha_iff]
    simp
    omega

theorem class_alphanum {D : Type} {l : Lexicon D} :
    l.Class (.alt [Rules.lower, Rules.upper, Rules.digit]) fun c => c.isAlphanum = true :=
  Class.congr (class_ranges [(97, 122), (65, 90), (48, 57)]) fun c => by
    rw [isAlphanum_iff]
    simp
    omega

theorem matches_version : matchesRule "version" t = .ok true ↔ t = "1" := by
  rw [matches_field (field_rule "version" 3 rfl)]
  simp only [takes_tbs, exists_and_left, exists_eq, and_true]

theorem matches_chainId : matchesRule "chain-id" t = .ok true ↔ t ≠ [] ∧ ∀ c ∈ t, c.isDigit = true := by
  rw [matches_field (field_rule "chain-id" 4 rfl)]
  simp [takes_plus_class class_digit]

theorem matches_nonce : matchesRule "nonce" t = .ok true ↔ IsNonce t := by
  rw [matches_field (field_rule "nonce" 5 rfl)]
  simp [takes_rep_class class_alphanum, IsNonce, and_comm]

theorem matches_address : matchesRule "address" t = .ok true ↔ IsAddress t := by
  have hmax : some 40 ≠ some 0 := by decide
  rw [matches_field (field_rule "address" 1 rfl)]
  simp only [takes_cat_cons, takes_cat_nil, takes_tbs, takes_rep_class class_hexDigit hmax]
  constructor
  · rintro ⟨_, _, _, _, rfl, ⟨rfl, rfl⟩, digits, _, _, rfl, ⟨hhex, hmin, hmax, -, rfl⟩, rfl, rfl⟩
    exact ⟨digits, by rw [List.append_nil], Nat.le_antisymm (hmax 40 rfl) hmin, hhex⟩
  · rintro ⟨digits, rfl, hlen, hhex⟩
    refine ⟨_, "0x", digits, _, rfl, ⟨rfl, rfl⟩, digits, [], _, by rw [List.append_nil], ⟨hhex, ?_, ?_, ?_, rfl⟩, rfl, rfl⟩
    · exact Nat.le_of_eq hlen.symm
    · simp [hlen]
    · simp [hlen]

theorem class_reserved : fieldLexicon.Class (.rnm "reserved") IsReserved := by
  have hbody : fieldLexicon.Class (.alt [.ch 33, .trg 35 36, .trg 38 44, .ch 47, .trg 58 59, .ch 61, .trg 63 64, .ch 91,
      .ch 93]) IsReserved :=
    Class.congr (class_ranges [(33, 33), (35, 36), (38, 44), (47, 47), (58, 59), (61, 61), (63, 64), (91, 91), (93, 93)])
      fun c => by
        rw [isReserved_iff]
        simp
        omega
  exact hbody.rnm (defines_character (by simp only [Rules.uriCharacters, List.mem_cons, true_or, or_true]) (by simp))

theorem class_unreserved : fieldLexicon.Class (.rnm "unreserved") IsUnreserved := by
  have hbody : fieldLexicon.Class (.alt [Rules.lower, Rules.upper, Rules.digit, .trg 45 46, .ch 95, .ch 126]) IsUnreserved :=
    Class.congr (class_ranges [(97, 122), (65, 90), (48, 57), (45, 46), (95, 95), (126, 126)]) fun c => by
      rw [isUnreserved_iff]
      simp
      omega
  exact hbody.rnm (defines_character (by simp only [Rules.uriCharacters, List.mem_cons, true_or, or_true]) (by simp))

theorem class_statement : fieldLexicon.Class (.alt [.rnm "reserved", .rnm "unreserved", .tls " "])
    fun c => IsReserved c ∨ IsUnreserved c ∨ c = ' ' := by
  have hblank : fieldLexicon.Class (.tls " ") (· = ' ') := class_tls (by decide)
  exact (class_alt_cons class_reserved (class_alt_cons class_unreserved (class_alt_cons hblank class_alt_nil))).congr
    fun c => by rw [or_false]

theorem matches_statement : matchesRule "statement" t = .ok true ↔ t ≠ [] ∧ IsStatement t := by
  rw [matches_field (field_rule "statement" 2 rfl)]
  simp only [takes_plus_class class_statement]
  simp [IsStatement]

theorem isPathChar_iff (c : Char) : IsPathChar c ↔ (97 ≤ c.toNat ∧ c.toNat ≤ 122) ∨ (64 ≤ c.toNat ∧ c.toNat ≤ 90) ∨
    (48 ≤ c.toNat ∧ c.toNat ≤ 59) ∨ c.toNat = 33 ∨ c.toNat = 36 ∨ (38 ≤ c.toNat ∧ c.toNat ≤ 46) ∨ c.toNat = 61 ∨
      c.toNat = 95 ∨ c.toNat = 126 := by
  rw [IsPathChar, isUnreserved_iff, isSubDelim_iff, ← Char.toNat_inj, ← Char.toNat_inj]
  simp
  omega

theorem pctEncoded_rule : (("pct-encoded" : Text), Expr.cat [.tbs "%", Rules.hexDigit, Rules.hexDigit]) ∈
    Rules.uriCharacters := by simp only [Rules.uriCharacters, List.mem_cons, true_or, or_true]

theorem pchar_rule : (("pchar" : Text), Expr.alt ([Rules.lower, .trg 64 90, .trg 48 59, .ch 33, .ch 36, .trg 38 46, .ch 61,
    .ch 95, .ch 126] ++ [.rnm "pct-encoded"])) ∈ Rules.uriCharacters := by
  simp only [Rules.uriCharacters, List.cons_append, List.nil_append, List.mem_cons, true_or, or_true]

theorem takes_pctEncoded : fieldLexicon.Takes (.rnm "pct-encoded") pre x post d d' ↔
    (∃ g h, x = ['%', g, h] ∧ isHexDigit g = true ∧ isHexDigit h = true) ∧ d' = d := by
  rw [takes_rnm (defines_character pctEncoded_rule (by simp))]
  simp only [takes_cat_cons, takes_cat_nil, takes_tbs, class_hexDigit.takes]
  constructor
  · rintro ⟨_, _, _, rfl, ⟨rfl, rfl⟩, _, _, _, rfl, ⟨⟨g, rfl, hg⟩, rfl⟩, _, _, _, rfl, ⟨⟨h, rfl, hh⟩, rfl⟩, rfl, rfl⟩
    exact ⟨⟨g, h, rfl, hg, hh⟩, rfl⟩
  · rintro ⟨⟨g, h, rfl, hg, hh⟩, rfl⟩
    exact ⟨"%", [g, h], _, rfl, ⟨rfl, rfl⟩, [g], [h], _, rfl, ⟨⟨g, rfl, hg⟩, rfl⟩,
      [h], [], _, rfl, ⟨⟨h, rfl, hh⟩, rfl⟩, rfl, rfl⟩

theorem takes_pchar : fieldLexicon.Takes (.rnm "pchar") pre x post d d' ↔ IsPchar x ∧ d' = d := by
  have hclass : fieldLexicon.Class (.alt [Rules.lower, .trg 64 90, .trg 48 59, .ch 33, .ch 36, .trg 38 46, .ch 61, .ch 95,
      .ch 126]) IsPathChar :=
    Class.congr (class_ranges [(97, 122), (64, 90), (48, 59), (33, 33), (36, 36), (38, 46), (61, 61), (95, 95), (126, 126)])
      fun c => by
        rw [isPathChar_iff]
        simp
        omega
  have hpct : ¬ IsPathChar '%' := by
    rw [isPathChar_iff]
    decide
  rw [takes_rnm (defines_character pchar_rule (by simp)), takes_alt_append]
  simp only [hclass.takes, hclass.refuses, takes_alt_cons, takes_alt_nil, takes_pctEncoded, and_false, exists_false, or_false]
  constructor
  · rintro (⟨h, rfl⟩ | ⟨_, ⟨-, rfl⟩, h, rfl⟩)
    · exact ⟨.inl h, rfl⟩
    · exact ⟨.inr h, rfl⟩
  · rintro ⟨h | ⟨g, h, rfl, hg, hh⟩, rfl⟩
    · exact .inl ⟨h, rfl⟩
    · refine .inr ⟨_, ⟨fun c hc => ?_, rfl⟩, ⟨g, h, rfl, hg, hh⟩, rfl⟩
      obtain rfl : '%' = c := by simpa using hc
      exact hpct

theorem matches_requestId : matchesRule "request-id" t = .ok true ↔ IsRequestId t := by
  have hne : ∀ p, IsPchar p → p ≠ [] := by
    rintro p (⟨c, rfl, -⟩ | ⟨g, h, rfl, -⟩) <;> simp
  rw [matches_field (field_rule "request-id" 9 rfl)]
  simp only [takes_star_end takes_pchar hne]
  simp [IsRequestId]

theorem class_schemeRest {D : Type} {l : Lexicon D} :
    l.Class (.alt [Rules.lower, Rules.upper, Rules.digit, .ch 43, .trg 45 46])
      fun c => c.isAlphanum = true ∨ c ∈ ("+-." : Text) :=
  Class.congr (class_ranges [(97, 122), (65, 90), (48, 57), (43, 43), (45, 46)]) fun c => by
    rw [isAlphanum_iff]
    simp [← Char.toNat_inj]
    omega

theorem matches_scheme : matchesRule "scheme" t = .ok true ↔ IsScheme t := by
  have hrule : (_, _) ∈ bundledRules := List.mem_append_right _ (uri_rule "scheme" 29 rfl)
  have hdef := fieldMatcher_bundles.2.bound hrule
    (show (("scheme" : Text), UriCapture.onScheme) ∈ UriCapture.actions by
      simp only [UriCapture.actions, List.mem_cons, true_or, or_true])
  rw [matchesRule_iff (List.mem_map_of_mem hrule)]
  simp only [takes_rnm_onMatch hdef, takes_cat_cons, takes_cat_nil, class_letter.takes, takes_star_class class_schemeRest]
  constructor
  · rintro ⟨_, _, ⟨_, _, _, rfl, ⟨⟨c, rfl, hc⟩, rfl⟩, rest, _, _, rfl, ⟨hrest, -, rfl⟩, rfl, rfl⟩, -⟩
    exact ⟨c, rest, by rw [List.append_nil]; rfl, hc, hrest⟩
  · rintro ⟨c, rest, rfl, hc, hrest⟩
    exact ⟨_, _, ⟨[c], rest, _, rfl, ⟨⟨c, rfl, hc⟩, rfl⟩,
      rest, [], _, by rw [List.append_nil], ⟨hrest, by simp, rfl⟩, rfl, rfl⟩, rfl⟩

/-! ## Characters of domains, URIs and date-times -/

theorem judges_onUri : UriCapture.onUri.Judges := by
  intro p input o d
  unfold UriCapture.onUri
  cases hs : p.state with
  | emptyMatch => exact .inr ⟨by simp, rfl⟩
  | _ => exact .inl rfl

theorem judges_onHost : UriCapture.onHost.Judges := by
  intro p input o d
  unfold UriCapture.onHost
  cases p.state <;> exact .inl rfl

theorem judges_onPort : UriCapture.onPort.Judges := by
  intro p input o d
  unfold UriCapture.onPort
  cases hs : p.state with
  | matched =>
    dsimp only
    split
    · exact .inl rfl
    · exact .inr ⟨by simp, rfl⟩
  | _ => exact .inl rfl

theorem judges_onEmptyPath : UriCapture.onEmptyPath.Judges := by
  intro p input o d
  unfold UriCapture.onEmptyPath
  cases hs : p.state with
  | active => exact .inl rfl
  | emptyMatch => exact .inl rfl
  | _ => exact .inr ⟨by simp, rfl⟩

/-- The callbacks of the URI rules take notes and judge. -/
theorem judges_uri : ∀ a ∈ UriCapture.actions, a.2.Judges := by
  simp only [UriCapture.actions, List.forall_mem_cons]
  refine ⟨judges_onUri, Callback.judges_onMatch _, Callback.judges_onMatch _, judges_onHost, Callback.judges_onMatch _,
    judges_onPort, Callback.judges_onSuccess _, Callback.judges_onMatch _, Callback.judges_onMatch _, judges_onEmptyPath,
    Callback.judges_onSuccess _, Callback.judges_onSuccess _, Callback.judges_onMatch _, Callback.judges_judging _ _,
    Callback.judges_judging _ _, Callback.judges_onMatch _, Callback.judges_onMatch _, Callback.judges_onMatch _,
    Callback.judges_onMatch _, Callback.judges_judging _ _, Callback.judges_onMatch _, by simp⟩

theorem judging_fields : fieldLexicon.Judging bundledRules := fieldMatcher_bundles.2.judging judges_uri

/-- What the rules of some fields do not read. -/
theorem fields_avoid : (Expr.rnm "authority").avoids bundledRules [10, 32, 47] (bundledDepth + 1) = true ∧
    (Expr.rnm "URI").avoids bundledRules [10] (bundledDepth + 1) = true ∧
    (Expr.rnm "date-time").avoids bundledRules [10] (bundledDepth + 1) = true := by decide

/-- **A domain** has no line feed, blank or slash. -/
theorem authority_characters (h : matchesRule "authority" t = .ok true) : ∀ c ∈ t, AsciiExcept [10, 32, 47] c := by
  obtain ⟨d', htakes⟩ := (matchesRule_iff (judged_bundled "authority" (by simp [judgedNames]))).1 h
  exact htakes.avoids judging_fields (by decide) fields_avoid.1

/-- **A URI** is not empty and has no line feed. -/
theorem uri_characters (h : (splitUri? t).isSome = true) : t ≠ [] ∧ ∀ c ∈ t, AsciiExcept [10] c := by
  obtain ⟨d', htakes⟩ := splitUri?_isSome.1 h
  refine ⟨?_, htakes.avoids judging_fields (by decide) fields_avoid.2.1⟩
  rintro rfl
  have hdef := fieldMatcher_bundles.2.bound
    (List.mem_append_right _ (List.mem_append_left _ (List.mem_append_left _ List.mem_cons_self)))
    (show (("URI" : Text), UriCapture.onUri) ∈ UriCapture.actions from List.mem_cons_self)
  obtain ⟨d₁, -, hnote⟩ := (takes_rnm_judged hdef judges_onUri).1 htakes
  exact Phrase.ofLength_ne_fail 0 (congrArg Prod.fst hnote).symm

theorem dateTime_characters (h : matchesRule "date-time" t = .ok true) : ∀ c ∈ t, AsciiExcept [10] c := by
  obtain ⟨d', htakes⟩ := (matchesRule_iff (judged_bundled "date-time" (by simp [judgedNames]))).1 h
  exact htakes.avoids judging_fields (by decide) fields_avoid.2.2

end SignIn
