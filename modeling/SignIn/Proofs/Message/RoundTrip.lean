import SignIn.Proofs.Message.Counting
/-!
# Reading and writing messages

The texts that are read as a message are its layout, with any address that the policy turns into the message's and with
any digits of its chain id (`parse_eq_ok`).  Both directions of the round trip follow.  What is read is written back but
for these two fields; and what is written is read back, or refused, for the layout of a message without line feeds is
that of no other.

An empty scheme and an empty time are not written, so a message is read back in its normal form, without them.
-/
namespace SignIn

/-- **A message without what is not written of it:** an empty scheme and empty times. -/
def Message.normal (m : Message) : Message :=
  { m with
    scheme := m.scheme.filter fun t => !t.isEmpty
    expirationTime := m.expirationTime.filter fun t => !t.isEmpty
    notBefore := m.notBefore.filter fun t => !t.isEmpty }

/-- The strings of a message. -/
def Message.texts (m : Message) : List Text :=
  [m.domain, m.address, m.uri, m.nonce, m.issuedAt] ++ m.scheme.toList ++ m.statement.toList ++ m.expirationTime.toList ++
    m.notBefore.toList ++ m.requestId.toList ++ m.resources.getD []

/-! ## The layout of a message -/

theorem invitation_lf : (" wants you to sign in with your Ethereum account:\n" : Text) = invitation ++ "\n" := by
  decide

theorem lf_lf : ("\n\n" : Text) = "\n" ++ "\n" := by decide

theorem labelled_expiration (t : Text) : ("\nExpiration Time: " : Text) ++ t = labelled expirationLabel t :=
  congrArg (· ++ t) (show ("\nExpiration Time: " : Text) = "\n" ++ expirationLabel by decide)

theorem labelled_notBefore (t : Text) : ("\nNot Before: " : Text) ++ t = labelled notBeforeLabel t :=
  congrArg (· ++ t) (show ("\nNot Before: " : Text) = "\n" ++ notBeforeLabel by decide)

theorem labelled_requestId (t : Text) : ("\nRequest ID: " : Text) ++ t = labelled requestIdLabel t :=
  congrArg (· ++ t) (show ("\nRequest ID: " : Text) = "\n" ++ requestIdLabel by decide)

/-- **A message is written as the sheet of its normal form.** -/
theorem wireWith_eq (m : Message) (a c : Text) : m.wireWith a c = (m.normal.sheet a c).text := by
  unfold Message.wireWith
  simp only [Sheet.text_eq, invitation_lf, lf_lf, labelled_expiration, labelled_notBefore, labelled_requestId, filledPart,
    Message.sheet, Message.normal, Sheet.schemePart, Sheet.statementPart, Sheet.expirationPart, Sheet.notBeforePart,
    Sheet.requestIdPart, List.append_assoc]

/-! ## The fields of a valid message -/

theorem fills_of_except {bad : List Nat} {k : Char} {x : Text} (hk : k.toNat ∈ bad) (hne : x ≠ [])
    (hx : ∀ c ∈ x, AsciiExcept bad c) : Fills k x := by
  refine ⟨hne, fun c hc => ⟨(hx c hc).1, ?_⟩⟩
  rintro rfl
  exact (hx c hc).2 hk

theorem fills_of_digits {w : Text} (hne : w ≠ []) (hw : ∀ c ∈ w, c.isDigit = true) : Fills '\n' w := by
  refine ⟨hne, fun c hc => ?_⟩
  have hdigit := (isDigit_iff c).1 (hw c hc)
  rw [AsciiBut, ne_eq, ← Char.toNat_inj, show '\n'.toNat = 10 from rfl]
  omega

theorem IsScheme.characters {s : Text} (h : IsScheme s) : s ≠ [] ∧ ∀ c ∈ s, AsciiExcept [10, 58] c := by
  obtain ⟨c, rest, rfl, hc, hrest⟩ := h
  refine ⟨List.cons_ne_nil _ _, fun d hd => ?_⟩
  have halnum : d.isAlphanum = true ∨ d ∈ ("+-." : Text) := by
    rcases List.mem_cons.1 hd with rfl | hd
    · exact .inl (by rw [Char.isAlphanum, hc, Bool.true_or])
    · exact hrest d hd
  rw [isAlphanum_iff] at halnum
  simp only [AsciiExcept, List.mem_cons, List.not_mem_nil, or_false]
  simp [← Char.toNat_inj] at halnum
  omega

theorem IsAddress.fills {a : Text} (h : IsAddress a) : Fills '\n' a := by
  obtain ⟨digits, rfl, -, hhex⟩ := h
  refine ⟨by simp, fun c hc => ?_⟩
  rcases List.mem_append.1 hc with hc | hc
  · exact (show ∀ c ∈ ['0', 'x'], AsciiBut '\n' c by simp [AsciiBut]) c hc
  · have hhex := (isHexDigit_iff c).1 (hhex c hc)
    rw [AsciiBut, ne_eq, ← Char.toNat_inj, show '\n'.toNat = 10 from rfl]
    omega

theorem IsStatement.line {s : Text} (h : IsStatement s) : Line s := by
  intro c hc
  have hstatement := h c hc
  rw [isReserved_iff, isUnreserved_iff, ← Char.toNat_inj, show ' '.toNat = 32 from rfl] at hstatement
  rw [AsciiBut, ne_eq, ← Char.toNat_inj, show '\n'.toNat = 10 from rfl]
  omega

theorem IsNonce.fills {n : Text} (h : IsNonce n) : Fills '\n' n := by
  refine ⟨?_, fun c hc => ?_⟩
  · rintro rfl
    exact absurd h.1 (by decide)
  · have halnum := (isAlphanum_iff c).1 (h.2 c hc)
    rw [AsciiBut, ne_eq, ← Char.toNat_inj, show '\n'.toNat = 10 from rfl]
    omega

theorem IsRequestId.line {r : Text} (h : IsRequestId r) : Line r := by
  obtain ⟨ps, rfl, hps⟩ := h
  intro c hc
  obtain ⟨p, hp, hcp⟩ := List.mem_flatten.1 hc
  have hchar : IsPathChar c ∨ c = '%' ∨ isHexDigit c = true := by
    rcases hps p hp with ⟨d, rfl, hd⟩ | ⟨g, k, rfl, hg, hk⟩
    · obtain rfl := List.mem_singleton.1 hcp
      exact .inl hd
    · simp only [List.mem_cons, List.not_mem_nil, or_false] at hcp
      rcases hcp with rfl | rfl | rfl
      · exact .inr (.inl rfl)
      · exact .inr (.inr hg)
      · exact .inr (.inr hk)
  rw [isPathChar_iff, isHexDigit_iff, ← Char.toNat_inj, show '%'.toNat = 37 from rfl] at hchar
  rw [AsciiBut, ne_eq, ← Char.toNat_inj, show '\n'.toNat = 10 from rfl]
  omega

theorem fills_of_isUri {u : Text} (h : (splitUri? u).isSome = true) : Fills '\n' u :=
  fills_of_except (by decide) (uri_characters h).1 (uri_characters h).2

theorem fills_of_isDateTime {t : Text} (h : isDateTime t = true) : Fills '\n' t := by
  refine fills_of_except (by decide) ?_ (dateTime_characters (matches_dateTime h))
  rintro rfl
  exact absurd h (by decide)

/-! ## The sheet of a valid message -/

theorem filter_filled {o : Option Text} (h : ∀ t ∈ o, t ≠ []) : (o.filter fun t => !t.isEmpty) = o := by
  cases o with
  | none => rfl
  | some t => simp [Option.filter, h t rfl]

/-- **Where no scheme stands, none is read,** for the first colon comes after the domain and before a line feed. -/
theorem not_schemed_invitation {domain : Text} (hdomain : '/' ∉ domain) (t : Text) :
    ¬ Schemed (domain ++ (invitation ++ ("\n" ++ t))) := by
  rintro ⟨s, rest, hfills, htext⟩
  have hslash : '/' ∉ domain ++ invitation := by
    rw [List.mem_append, not_or]
    exact ⟨hdomain, by decide⟩
  have hcolon : ':' ∈ domain ++ invitation := List.mem_append_right _ (by decide)
  rw [← List.append_assoc] at htext
  rcases List.append_eq_append_iff.1 htext with ⟨b, hb, -⟩ | ⟨b, hb, htail⟩
  · refine hfills.not_mem ?_
    rw [hb]
    exact List.mem_append_left _ hcolon
  · cases b with
    | nil => cases htail
    | cons x b =>
      cases b with
      | nil => cases htail
      | cons y b =>
        obtain ⟨-, hy⟩ := List.cons.inj htail
        obtain ⟨rfl, -⟩ := List.cons.inj hy
        refine hslash ?_
        rw [show domain ++ invitation = s ++ x :: '/' :: b from hb]
        simp

namespace Message.Valid

variable {m : Message} {a c : Text} {n : Nat}

theorem normal (hm : m.Valid) : m.normal = m := by
  have hscheme := filter_filled fun s hs => (hm.scheme s hs).characters.1
  have hexpiration := filter_filled fun t ht => (fills_of_isDateTime (hm.expirationTime t ht)).1
  have hnotBefore := filter_filled fun t ht => (fills_of_isDateTime (hm.notBefore t ht)).1
  rw [Message.normal, hscheme, hexpiration, hnotBefore]

theorem noSlash (hm : m.Valid) : '/' ∉ m.domain := fun h => (authority_characters hm.domain _ h).2 (by decide)

theorem not_schemed (hm : m.Valid) (hs : m.scheme = none) : ¬ Schemed (m.sheet a c).text := by
  have hscheme : (m.sheet a c).schemePart = [] := by
    show optionalPart _ m.scheme = []
    rw [hs, optionalPart]
  rw [Sheet.text_eq, hscheme, List.nil_append]
  exact not_schemed_invitation hm.noSlash _

theorem cut (hm : m.Valid) (ha : IsAddress a) (hc : IsNumeral c n) : (m.sheet a c).Cut := by
  constructor
  case scheme => exact fun s hs => fills_of_except (by decide) (hm.scheme s hs).characters.1 (hm.scheme s hs).characters.2
  case noScheme => exact hm.not_schemed
  case domain => exact fills_of_except (by decide) hm.domain_ne (authority_characters hm.domain)
  case address => exact ha.fills
  case statement => exact fun s hs => (hm.statement s hs).line
  case uri => exact fills_of_isUri hm.uri
  case version => exact fills_of_digits (decimal_ne_nil _) isDigit_of_mem_decimal
  case chainId => exact fills_of_digits hc.1 hc.2.1
  case nonce => exact hm.nonce.fills
  case issuedAt => exact fills_of_isDateTime hm.issuedAt
  case expirationTime => exact fun t ht => fills_of_isDateTime (hm.expirationTime t ht)
  case notBefore => exact fun t ht => fills_of_isDateTime (hm.notBefore t ht)
  case requestId => exact fun r hr => (hm.requestId r hr).line
  case resources => exact fun rs hrs r hr => fills_of_isUri (hm.resources rs hrs r hr)

theorem lineFree (hm : m.Valid) (ha : IsAddress a) (hc : IsNumeral c n) : (m.sheet a c).LineFree := by
  have hcut := hm.cut ha hc
  constructor
  case scheme => exact fun s hs h => ((hm.scheme s hs).characters.2 _ h).2 (by decide)
  case domain => exact fun h => (authority_characters hm.domain _ h).2 (by decide)
  case address => exact hcut.address.not_mem
  case statement => exact fun s hs h => not_asciiBut_self _ (hcut.statement s hs _ h)
  case uri => exact hcut.uri.not_mem
  case version => exact hcut.version.not_mem
  case chainId => exact hcut.chainId.not_mem
  case nonce => exact hcut.nonce.not_mem
  case issuedAt => exact hcut.issuedAt.not_mem
  case expirationTime => exact fun t ht => (hcut.expirationTime t ht).not_mem
  case notBefore => exact fun t ht => (hcut.notBefore t ht).not_mem
  case requestId => exact fun r hr h => not_asciiBut_self _ (hcut.requestId r hr _ h)
  case resources => exact fun rs hrs r hr => (hcut.resources rs hrs r hr).not_mem

end Message.Valid

/-! ## Which texts are read, and as what -/

/-- **The texts that are read as a message** are its layout with an address that the policy turns into its own, and with
digits of its chain id. -/
theorem parse_eq_ok {text : Text} {policy : AddressPolicy} {m : Message} : Message.parse text policy = .ok m ↔
    m.Valid ∧ ∃ a c, text = m.wireWith a c ∧ IsAddress a ∧ policy.Treats a m.address ∧ IsNumeral c m.chainId.val := by
  rw [Message.parse, except_bind_eq_ok]
  constructor
  · rintro ⟨f, htext, hjudge⟩
    obtain ⟨F, hcut, hlayout, rfl⟩ := ofText_eq_ok.1 htext
    obtain ⟨hF, hm, ha, htreats, hc⟩ := (judge_eq_ok hcut.domain.1).1 hjudge
    refine ⟨hm, F.address, F.chainId, ?_, ha, htreats, hc⟩
    rw [hlayout, wireWith_eq, hm.normal, ← hF]
  · rintro ⟨hm, a, c, htext, ha, htreats, hc⟩
    rw [wireWith_eq, hm.normal] at htext
    refine ⟨(m.sheet a c).fields, ofText_eq_ok.2 ⟨m.sheet a c, hm.cut ha hc, htext, rfl⟩, ?_⟩
    exact (judge_eq_ok hm.domain_ne).2 ⟨rfl, hm, ha, htreats, hc⟩

/-! ## Reading and writing back -/

/-- What a policy has made of an address, it leaves alone. -/
theorem AddressPolicy.Treats.again {policy : AddressPolicy} {a s : Text} (h : policy.Treats a s) : policy.Treats s s := by
  cases policy with
  | validate =>
    obtain ⟨hc, rfl⟩ := h
    exact ⟨hc, rfl⟩
  | convert => exact (checksummed_spelling h).2
  | ignore => rfl

theorem isNumeral_decimal (n : Nat) : IsNumeral (decimal n) n :=
  ⟨decimal_ne_nil n, isDigit_of_mem_decimal, decimalValue_decimal n⟩

/-- A message of the lines that it must have and an empty request id. -/
def shortMessage : Message where
  scheme := none
  domain := "a.b"
  address := "0x" ++ List.replicate 40 '0'
  statement := none
  uri := "c:"
  version := 1
  chainId := 1
  nonce := List.replicate 8 '0'
  issuedAt := "2000-01-01T00:00:00Z"
  expirationTime := none
  notBefore := none
  requestId := some []
  resources := none

theorem shortMessage_valid : shortMessage.Valid := by
  -- one evaluation reads the bundled rules once
  have hread : matchesRule "authority" shortMessage.domain = .ok true ∧ (splitUri? shortMessage.uri).isSome = true ∧
      isDateTime shortMessage.issuedAt = true := by decide +kernel
  constructor
  case scheme => exact fun s hs => by cases hs
  case domain_ne => decide
  case domain => exact hread.1
  case address => exact ⟨List.replicate 40 '0', rfl, List.length_replicate, fun c hc => (List.mem_replicate.1 hc).2 ▸ rfl⟩
  case statement => exact fun s hs => by cases hs
  case uri => exact hread.2.1
  case version => rfl
  case nonce => exact ⟨by decide, fun c hc => (List.mem_replicate.1 hc).2 ▸ rfl⟩
  case issuedAt => exact hread.2.2
  case expirationTime => exact fun t ht => by cases ht
  case notBefore => exact fun t ht => by cases ht
  case requestId => exact fun r hr => ⟨[], (Option.some.inj hr).symm, by simp⟩
  case resources => exact fun rs hrs => by cases hrs

/-- The strings of a message and the digits of its numbers have no line feed. -/
theorem lineFree_of_texts {m : Message} (h : ∀ t ∈ m.texts, '\n' ∉ t) :
    (m.normal.sheet m.address (decimal m.chainId.val)).LineFree := by
  have hdigits : ∀ n : Nat, '\n' ∉ decimal n :=
    fun n => (fills_of_digits (decimal_ne_nil n) isDigit_of_mem_decimal).not_mem
  have hfilter : ∀ o : Option Text, (∀ t ∈ o, '\n' ∉ t) → ∀ t ∈ o.filter (fun t => !t.isEmpty), '\n' ∉ t :=
    fun o ho t ht => ho t (Option.filter_eq_some_iff.1 ht).1
  simp only [Message.texts, List.forall_mem_append, List.forall_mem_cons, Option.mem_toList] at h
  obtain ⟨⟨⟨⟨⟨⟨⟨hdomain, haddress, huri, hnonce, hissuedAt, -⟩, hscheme⟩, hstatement⟩, hexpiration⟩, hnotBefore⟩, hrequestId⟩,
    hresources⟩ := h
  constructor
  case scheme => exact hfilter _ hscheme
  case domain => exact hdomain
  case address => exact haddress
  case statement => exact hstatement
  case uri => exact huri
  case version => exact hdigits _
  case chainId => exact hdigits _
  case nonce => exact hnonce
  case issuedAt => exact hissuedAt
  case expirationTime => exact hfilter _ hexpiration
  case notBefore => exact hfilter _ hnotBefore
  case requestId => exact hrequestId
  case resources =>
    intro rs hrs r hr
    refine hresources r ?_
    rw [show m.resources = some rs from hrs]
    exact hr

/-- A message is known by its sheet, its address and its chain id. -/
theorem sheet_injective {m n : Message} {a b c d : Text} (h : m.sheet a c = n.sheet b d) (ha : m.address = n.address)
    (hc : m.chainId = n.chainId) : m = n := by
  obtain ⟨scheme, domain, address, statement, uri, version, chainId, nonce, issuedAt, expirationTime, notBefore, requestId,
    resources⟩ := m
  simp only [Message.sheet, Sheet.mk.injEq] at h ha hc
  obtain ⟨rfl, rfl, -, rfl, rfl, hversion, -, rfl, rfl, rfl, rfl, rfl, rfl⟩ := h
  rw [ha, hc, Fin.ext (decimal_injective hversion)]

/-- **What is written is read back** in its normal form, if that is valid, and else it is refused.  It is never read as
another message.  Rounds may be counted in anything that holds the length of what is written. -/
theorem parse_wire {m : Message} {counter : Counter} (hfree : ∀ t ∈ m.texts, '\n' ∉ t) (hslash : '/' ∉ m.domain)
    (hlen : counter.Holds m.wire.length) :
    (m.normal.Valid → Message.parse m.wire .ignore counter = .ok m.normal) ∧
      (¬ m.normal.Valid → ∃ e, Message.parse m.wire .ignore counter = .error e) := by
  rw [parse_counter hlen]
  constructor
  · intro hm
    refine parse_eq_ok.2 ⟨hm, m.address, decimal m.chainId.val, ?_, hm.address, rfl, isNumeral_decimal _⟩
    rw [Message.wire, wireWith_eq, wireWith_eq, hm.normal]
  · intro hnot
    cases hparse : Message.parse m.wire .ignore with
    | error e => exact ⟨e, rfl⟩
    | ok n =>
      obtain ⟨hn, a, c, htext, ha, haddress, hc⟩ := parse_eq_ok.1 hparse
      rw [Message.wire, wireWith_eq, wireWith_eq, hn.normal] at htext
      have hsheet := Sheet.text_injective (lineFree_of_texts hfree) (hn.lineFree ha hc) hslash hn.noSlash htext
      have haddress' : m.address = n.address := (congrArg Sheet.address hsheet).trans haddress.symm
      have hchainId : m.chainId = n.chainId := by
        rw [Fin.ext_iff, ← decimalValue_decimal m.chainId.val, ← hc.2.2]
        exact congrArg (fun F => decimalValue F.chainId) hsheet
      rw [sheet_injective hsheet haddress' hchainId] at hnot
      exact absurd hn hnot

/-- Counted in words, an empty scheme is not read back, and a nonce that is too short is refused. -/
theorem parse_wire_short :
    Message.parse { shortMessage with scheme := some [] }.wire .ignore .word = .ok shortMessage ∧
      ∃ e, Message.parse { shortMessage with nonce := "0" }.wire .ignore .word = .error e := by
  have hshort : ¬ Message.Valid { shortMessage with nonce := "0" } := fun h => absurd h.nonce.1 (by decide)
  constructor
  · exact (@parse_wire { shortMessage with scheme := some [] } .word (by decide) (by decide) (by decide +kernel)).1
      shortMessage_valid
  · exact (@parse_wire { shortMessage with nonce := "0" } .word (by decide) (by decide) (by decide +kernel)).2 hshort

/-! ## A scheme that begins the count anew -/

/-- The callbacks of the other rules do not note a scheme. -/
theorem scheme_actions : ∀ a ∈ MessageCapture.actions.drop 1, ∀ p input o d, (a.2 p input o d).2.scheme = d.scheme := by
  intro a ha p input o d
  have hsplit : MessageCapture.actions.drop 1 =
      (MessageCapture.actions.take 16).drop 1 ++ MessageCapture.actions.drop 16 := rfl
  rw [hsplit, List.mem_append, RequiredLine.actions_leads] at ha
  rcases ha with hkept | hlead
  · exact (MessageCapture.kept_actions a hkept p input o d).1
  · obtain ⟨line, -, rfl⟩ := List.mem_map.1 hlead
    simp only [MessageCapture.onLead]
    split <;> rfl

/-- **A scheme is not noted if the counter shows none of its characters.** -/
theorem noScheme_of_takes {counter : Counter} {s rest : Text} {d : MessageCapture} (hs : ':' ∉ s)
    (hshows : counter.shows s.length = 0)
    (h : (messageLexicon counter).Takes (.rnm Rules.firstPass) [] (s ++ ("://" ++ rest)) [] .empty d) : d.scheme = none := by
  obtain ⟨-, -, hb, -⟩ := messageMatcher_bound counter
  have hkept : ∀ {e : Expr} {pre post : Text} {d d' : MessageCapture} {p : Phrase},
      e.stays bundledRules [] ["ffscheme"] bundledDepth = true →
      (messageLexicon counter).outcome (pre ++ post).toArray e pre.length d = .ended p d' → d'.scheme = d.scheme :=
    fun he hout => hb.leaves MessageCapture.judges_actions 1 MessageCapture.scheme scheme_actions he hout
  rw [Lexicon.takes_rnm defines_firstPass, Rules.messageBody] at h
  obtain ⟨y, z, d₁, hx, hopt, hrest⟩ := Lexicon.takes_cat_cons.1 h
  have hlast : d.scheme = d₁.scheme := hkept (by decide) hrest
  rw [hlast]
  rcases Lexicon.takes_opt.1 hopt with ⟨-, -, rfl⟩ | ⟨-, htaken | ⟨-, hrefused⟩⟩
  · rfl
  · -- the rule of the scheme would have to take all of it
    obtain ⟨_, hbody, -⟩ := (Lexicon.takes_rnm_onMatch defines_scheme).1 htaken
    obtain ⟨t, _, _, rfl, hslot, hlit⟩ := Lexicon.takes_cat_cons.1 hbody
    obtain ⟨_, rfl, -⟩ := Lexicon.takes_cat_tbs.1 hlit
    have hclass : (messageLexicon counter).Class (.alt [.trg 0 57, .trg 59 127]) (AsciiBut ':') :=
      Lexicon.class_but (by decide) (by decide)
    rw [Lexicon.takes_rnm defines_schemeSlot, Lexicon.takes_plus_class_shown hclass] at hslot
    obtain ⟨hcounted, hfill, -⟩ := hslot
    have ht : ':' ∉ t := fun hmem => not_asciiBut_self ':' (hfill _ hmem)
    rw [List.append_assoc, List.append_assoc] at hx
    obtain ⟨rfl, -⟩ := Sheet.split_at hs ht (by simp) (by simp) hx
    rw [counter_messageLexicon] at hcounted
    exact absurd hshows hcounted
  · rw [Lexicon.refuses_rnm_onMatch defines_scheme] at hrefused
    exact hkept (by decide) hrefused

/-- A message has the scheme of its fields. -/
theorem scheme_of_judge {f : Fields} {policy : AddressPolicy} {counter : Counter} {m : Message}
    (h : f.judge policy counter = .ok m) : m.scheme = f.scheme.map Capture.text := by
  unfold Fields.judge at h
  simp only [exists_unit, except_bind_eq_ok] at h
  obtain ⟨-, -, _, -, -, -, -, _, -, -, _, -, -, -, -, -, -, -, h⟩ := h
  rw [← Except.ok.inj h]

/-- **Such a message is not read back** with its scheme. -/
theorem scheme_of_parse {counter : Counter} {s rest : Text} {policy : AddressPolicy} {m : Message} (hs : ':' ∉ s)
    (hshows : counter.shows s.length = 0) (h : Message.parse (s ++ ("://" ++ rest)) policy counter = .ok m) :
    m.scheme = none := by
  rw [Message.parse, except_bind_eq_ok] at h
  obtain ⟨f, htext, hjudge⟩ := h
  obtain ⟨⟨report, hresult, hsuccess⟩, hdata⟩ := ofParsed_eq_ok.1 htext
  have htakes := noScheme_of_takes hs hshows (takes_of_parse (messageMatcher_bound counter).1 hresult hsuccess)
  rw [hdata] at htakes
  rw [scheme_of_judge hjudge, show f.scheme = none from htakes, Option.map_none]

/-- A short message with a scheme. -/
def schemedMessage (s : Text) : Message := { shortMessage with scheme := some s }

theorem isScheme_replicate {n : Nat} (h : n ≠ 0) : IsScheme (List.replicate n 'a') := by
  obtain ⟨k, rfl⟩ := Nat.exists_eq_succ_of_ne_zero h
  refine ⟨'a', List.replicate k 'a', rfl, rfl, fun c hc => .inl ?_⟩
  rw [(List.mem_replicate.1 hc).2]
  rfl

theorem schemedMessage_valid {s : Text} (hs : IsScheme s) : (schemedMessage s).Valid :=
  { shortMessage_valid with
    scheme := fun t ht => by
      obtain rfl : s = t := Option.some.inj ht
      exact hs }

theorem schemedMessage_texts {s : Text} (hs : IsScheme s) : ∀ t ∈ (schemedMessage s).texts, '\n' ∉ t := by
  have hother : ∀ t ∈ shortMessage.texts, '\n' ∉ t := by decide
  simp only [Message.texts, List.forall_mem_append, List.forall_mem_cons, Option.mem_toList] at hother ⊢
  obtain ⟨⟨⟨⟨⟨⟨hfields, -⟩, hstatement⟩, hexpiration⟩, hnotBefore⟩, hrequestId⟩, hresources⟩ := hother
  refine ⟨⟨⟨⟨⟨⟨hfields, fun t ht => ?_⟩, hstatement⟩, hexpiration⟩, hnotBefore⟩, hrequestId⟩, hresources⟩
  obtain rfl : s = t := Option.some.inj ht
  exact fun h => (hs.characters.2 _ h).2 (by decide)

theorem not_read_schemed {s : Text} {counter : Counter} (hs : IsScheme s) (hshows : counter.shows s.length = 0)
    (policy : AddressPolicy) : Message.parse (schemedMessage s).wire policy counter ≠ .ok (schemedMessage s) := by
  intro h
  rw [Message.wire, wireWith_eq, (schemedMessage_valid hs).normal, Sheet.text_eq, Sheet.schemePart,
    show ((schemedMessage s).sheet _ _).scheme = some s from rfl, optionalPart, List.append_assoc] at h
  cases scheme_of_parse (fun hc => (hs.characters.2 _ hc).2 (by decide)) hshows h

/-- **Counted in words, a message with a scheme of 2 ^ 32 letters is valid, and what is written of it is not read back.** -/
theorem not_parse_wire_wide : (∀ t ∈ (schemedMessage (List.replicate (2 ^ 32) 'a')).texts, '\n' ∉ t) ∧
    '/' ∉ (schemedMessage (List.replicate (2 ^ 32) 'a')).domain ∧
    (schemedMessage (List.replicate (2 ^ 32) 'a')).normal = schemedMessage (List.replicate (2 ^ 32) 'a') ∧
    (schemedMessage (List.replicate (2 ^ 32) 'a')).Valid ∧
    Message.parse (schemedMessage (List.replicate (2 ^ 32) 'a')).wire .ignore .word ≠
      .ok (schemedMessage (List.replicate (2 ^ 32) 'a')) := by
  have hs : IsScheme (List.replicate (2 ^ 32) 'a') := isScheme_replicate (by decide)
  have hshows : Counter.word.shows (List.replicate (2 ^ 32) 'a').length = 0 := by
    rw [List.length_replicate]
    rfl
  have hdomain : ∀ s, '/' ∉ (schemedMessage s).domain := by
    intro s
    show '/' ∉ shortMessage.domain
    decide
  exact ⟨schemedMessage_texts hs, hdomain _, (schemedMessage_valid hs).normal, schemedMessage_valid hs,
    not_read_schemed hs hshows .ignore⟩

end SignIn
