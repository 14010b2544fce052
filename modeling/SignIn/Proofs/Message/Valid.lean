import Mathlib.Data.Option.Basic
import SignIn.Message.Parser
import SignIn.Proofs.Message.Address
import SignIn.Proofs.Message.Cut
import SignIn.Proofs.Rules.Bytes
import SignIn.Proofs.Text.Numerals
/-!
# Messages that are accepted

What makes a message valid is said of its fields, without the parser (`Message.Valid`).  The parser's judgment of the
fields comes to the same: it accepts the fields of a sheet exactly if they are those of a valid message, written with any
address that the policy turns into the message's and with any digits of its chain id.
-/
namespace SignIn

/-- **A message whose fields are what they have to be.** -/
structure Message.Valid (m : Message) : Prop where
  scheme : ∀ s ∈ m.scheme, IsScheme s
  domain_ne : m.domain ≠ []
  domain : matchesRule "authority" m.domain = .ok true
  address : IsAddress m.address
  statement : ∀ s ∈ m.statement, IsStatement s
  uri : (splitUri? m.uri).isSome = true
  version : m.version.val = 1
  nonce : IsNonce m.nonce
  issuedAt : isDateTime m.issuedAt = true
  expirationTime : ∀ t ∈ m.expirationTime, isDateTime t = true
  notBefore : ∀ t ∈ m.notBefore, isDateTime t = true
  requestId : ∀ r ∈ m.requestId, IsRequestId r
  resources : ∀ rs ∈ m.resources, ∀ r ∈ rs, (splitUri? r).isSome = true

/-- **What a policy makes of an address.** -/
def AddressPolicy.Treats : AddressPolicy → Text → Text → Prop
  | .validate, a, s => checksummed a = .ok a ∧ s = a
  | .convert, a, s => checksummed a = .ok s
  | .ignore, a, s => s = a

/-- **Digits of a number,** leading zeros allowed. -/
def IsNumeral (w : Text) (n : Nat) : Prop := w ≠ [] ∧ (∀ c ∈ w, c.isDigit = true) ∧ decimalValue w = n

/-- The sheet of a message, with an address and the digits of a chain id in place of its own. -/
def Message.sheet (m : Message) (a c : Text) : Sheet where
  scheme := m.scheme
  domain := m.domain
  address := a
  statement := m.statement
  uri := m.uri
  version := decimal m.version.val
  chainId := c
  nonce := m.nonce
  issuedAt := m.issuedAt
  expirationTime := m.expirationTime
  notBefore := m.notBefore
  requestId := m.requestId
  resources := m.resources

/-! ## The judgments of single fields -/

theorem exists_unit {P : Unit → Prop} : (∃ u, P u) ↔ P () := ⟨fun ⟨_, h⟩ => h, fun h => ⟨(), h⟩⟩

theorem except_require_bind_eq_ok {ε β : Type} {x : Except ε Unit} {f : Unit → Except ε β} {b : β} :
    x >>= f = .ok b ↔ x = .ok () ∧ f () = .ok b := by
  rw [except_bind_eq_ok, exists_unit]

namespace Capture

variable {c : Capture} {o : Option Capture} {cs : List Capture} {judge : Capture → Except MessageError Unit}
  {policy : AddressPolicy}

/-- A field is judged by what its rule decides.  The definition is opened on its own, not at the field: to compare the two
forms there the kernel would run the match. -/
theorem require_eq (c : Capture) (rule : Text) (fault : FieldFault) (counter : Counter) : c.require rule fault counter =
    match matchesRule rule c.text counter with
    | .ok b => if b then .ok () else .error (c.fail fault)
    | .error e => .error (.engine e) := by
  have hdef : @require = @require := rfl
  conv at hdef => rhs; delta require
  rw [hdef]
  dsimp only
  generalize matchesRule rule c.text counter = x
  rcases x with e | _ | _ <;> rfl

theorem require_of_ok {rule : Text} {fault : FieldFault} {b : Bool} (h : matchesRule rule c.text = .ok b) :
    c.require rule fault = if b then .ok () else .error (c.fail fault) := by rw [require_eq, h]

theorem require_eq_ok {rule : Text} {fault : FieldFault} :
    c.require rule fault = .ok () ↔ matchesRule rule c.text = .ok true := by
  rw [require_eq]
  generalize matchesRule rule c.text = x
  rcases x with e | _ | _ <;> simp

theorem requireUri_eq_ok {fault : FieldFault} : c.requireUri fault = .ok () ↔ (splitUri? c.text).isSome = true := by
  unfold requireUri
  split <;> simp_all

/-- The calendar has the last word on a time, and the only one. -/
theorem requireDateTime_eq_ok {line : Text} : c.requireDateTime line = .ok () ↔ isDateTime c.text = true := by
  rw [requireDateTime, except_require_bind_eq_ok]
  constructor
  · rintro ⟨-, h⟩
    by_cases hd : isDateTime c.text = true
    · exact hd
    · rw [if_neg hd] at h
      cases h
  · intro hd
    exact ⟨require_eq_ok.2 (matches_dateTime hd), if_pos hd⟩

theorem isChecksummed_iff {a : Text} : isChecksummed a = true ↔ checksummed a = .ok a := by
  unfold isChecksummed
  cases checksummed a with
  | ok s => simp
  | error e => simp

theorem addressUnder_eq_ok {s : Text} : c.addressUnder policy = .ok s ↔ IsAddress c.text ∧ policy.Treats c.text s := by
  rw [← matches_address, ← @require_eq_ok c "address" .address]
  unfold addressUnder
  rw [except_require_bind_eq_ok]
  refine and_congr_right fun _ => ?_
  cases policy with
  | validate =>
    dsimp only [AddressPolicy.Treats]
    rw [← isChecksummed_iff]
    by_cases hc : isChecksummed c.text = true
    · rw [if_pos hc]
      exact ⟨fun h => ⟨hc, (Except.ok.inj h).symm⟩, fun h => congrArg Except.ok h.2.symm⟩
    · rw [if_neg hc]
      exact ⟨fun h => (by cases h), fun h => absurd h.1 hc⟩
  | convert =>
    dsimp only [AddressPolicy.Treats]
    cases checksummed c.text with
    | ok spelling => exact ⟨fun h => congrArg Except.ok (Except.ok.inj h), fun h => congrArg Except.ok (Except.ok.inj h)⟩
    | error e => exact ⟨fun h => (by cases h), fun h => (by cases h)⟩
  | ignore => exact ⟨fun h => (Except.ok.inj h).symm, fun h => congrArg Except.ok (Eq.symm h)⟩

theorem number_eq_ok {bound : Nat} {n : Fin bound} : c.number bound = .ok n ↔ IsNumeral c.text n.val := by
  have hdigits : (c.text.isEmpty || !c.text.all Char.isDigit) = true ↔ ¬ (c.text ≠ [] ∧ ∀ d ∈ c.text, d.isDigit = true) := by
    simp [Decidable.or_iff_not_imp_left]
  rw [number, IsNumeral, ← and_assoc]
  by_cases hw : c.text ≠ [] ∧ ∀ d ∈ c.text, d.isDigit = true
  · rw [if_neg (fun h => hdigits.1 h hw)]
    split
    · rw [Except.ok.injEq, Fin.ext_iff]
      exact (and_iff_right hw).symm
    · rename_i hbound
      constructor
      · intro h
        cases h
      · rintro ⟨-, hvalue⟩
        exact absurd (hvalue ▸ n.isLt) hbound
  · rw [if_pos (hdigits.2 hw)]
    constructor
    · intro h
      cases h
    · intro h
      exact absurd h.1 hw

theorem whenPresent_eq_ok : whenPresent o judge = .ok () ↔ ∀ c ∈ o, judge c = .ok () := by
  cases o <;> simp [whenPresent]

theorem whenFilled_eq_ok : whenFilled o judge = .ok () ↔ ∀ c ∈ o, c.text ≠ [] → judge c = .ok () := by
  rw [whenFilled, whenPresent_eq_ok]
  have hone : ∀ c : Capture,
      (if c.text.isEmpty = true then Except.ok () else judge c) = .ok () ↔ (c.text ≠ [] → judge c = .ok ()) := by
    intro c
    by_cases hc : c.text = []
    · simp [hc]
    · simp [hc]
  simp only [hone]

theorem requireResources_eq_ok : ∀ {cs : List Capture} {index : Nat},
    requireResources index cs = .ok () ↔ ∀ c ∈ cs, (splitUri? c.text).isSome = true
  | [], _ => by simp [requireResources]
  | c :: cs, index => by
    rw [requireResources, except_require_bind_eq_ok, List.forall_mem_cons, requireResources_eq_ok, requireUri_eq_ok]

end Capture

/-! ## The judgment of a sheet -/

theorem forall_fields_resources {F : Sheet} {P : Text → Prop} :
    (∀ c ∈ F.fields.resources.getD [], P c.text) ↔ ∀ rs ∈ F.resources, ∀ r ∈ rs, P r := by
  cases hrs : F.resources with
  | none => simp [Sheet.fields, hrs]
  | some rs =>
    rw [← List.forall_mem_map (f := Capture.text)]
    simp [Sheet.fields, hrs, Sheet.map_text_placed]

theorem version_numeral {n : Nat} (h : IsNumeral "1" n) : n = 1 := by
  rw [← h.2.2]
  rfl

theorem isStatement_of_filled {s : Text} (h : s ≠ [] → s ≠ [] ∧ IsStatement s) : IsStatement s := by
  by_cases hs : s = []
  · subst hs
    simp [IsStatement]
  · exact (h hs).2

theorem isRequestId_of_filled {r : Text} (h : r ≠ [] → IsRequestId r) : IsRequestId r := by
  by_cases hr : r = []
  · exact ⟨[], hr, by simp⟩
  · exact h hr

/-- What a policy makes of an address is one. -/
theorem AddressPolicy.Treats.isAddress {policy : AddressPolicy} {a s : Text} (h : policy.Treats a s) (ha : IsAddress a) :
    IsAddress s := by
  cases policy with
  | validate =>
    obtain ⟨-, rfl⟩ := h
    exact ha
  | convert => exact (checksummed_spelling h).1
  | ignore =>
    obtain rfl : s = a := h
    exact ha

theorem map_text_at (n : Nat) (o : Option Text) : (o.map (⟨·, n⟩ : Text → Capture)).map Capture.text = o := by
  cases o <;> rfl

theorem map_text_resources (F : Sheet) : F.fields.resources.map (List.map Capture.text) = F.resources := by
  cases hrs : F.resources with
  | none => simp [Sheet.fields, hrs]
  | some rs => simp [Sheet.fields, hrs, Sheet.map_text_placed]

/-- **The fields of a sheet are accepted exactly if they are those of a valid message.** -/
theorem judge_eq_ok {F : Sheet} {m : Message} {policy : AddressPolicy} (hne : F.domain ≠ []) :
    F.fields.judge policy = .ok m ↔ F = m.sheet F.address F.chainId ∧ m.Valid ∧ IsAddress F.address ∧
      policy.Treats F.address m.address ∧ IsNumeral F.chainId m.chainId.val := by
  unfold Fields.judge
  simp only [exists_unit, except_bind_eq_ok, Capture.whenPresent_eq_ok, Capture.whenFilled_eq_ok, Capture.require_eq_ok,
    Capture.requireUri_eq_ok, Capture.requireDateTime_eq_ok, Capture.addressUnder_eq_ok, Capture.number_eq_ok,
    Capture.requireResources_eq_ok, matches_scheme, matches_statement, matches_version, matches_chainId, matches_nonce,
    matches_requestId]
  constructor
  · rintro ⟨hscheme, hdomain, address, ⟨haddress, htreats⟩, hstatement, huri, hversion, version, hv, -, chainId, hc, hnonce,
      hissuedAt, hexpiration, hnotBefore, hrequestId, hresources, h⟩
    rw [hversion] at hv
    have hone := version_numeral hv
    obtain rfl := Except.ok.inj h
    refine ⟨?_, ?_, haddress, htreats, hc⟩
    · refine Sheet.ext (map_text_at _ _).symm rfl rfl (map_text_at _ _).symm rfl ?_ rfl rfl rfl (map_text_at _ _).symm
        (map_text_at _ _).symm (map_text_at _ _).symm (map_text_resources F).symm
      show F.version = decimal version.val
      rw [hone]
      exact hversion
    · constructor
      case scheme => exact Option.forall_mem_map.2 hscheme
      case domain_ne => exact hne
      case domain => exact hdomain
      case address => exact htreats.isAddress haddress
      case statement => exact Option.forall_mem_map.2 fun c hc => isStatement_of_filled (hstatement c hc)
      case uri => exact huri
      case version => exact hone
      case nonce => exact hnonce
      case issuedAt => exact hissuedAt
      case expirationTime => exact Option.forall_mem_map.2 hexpiration
      case notBefore => exact Option.forall_mem_map.2 hnotBefore
      case requestId => exact Option.forall_mem_map.2 fun c hc => isRequestId_of_filled (hrequestId c hc)
      case resources =>
        show ∀ rs ∈ F.fields.resources.map (List.map Capture.text), _
        rw [map_text_resources]
        exact (forall_fields_resources (P := fun t => (splitUri? t).isSome = true)).1 hresources
  · rintro ⟨hF, hm, haddress, htreats, hc⟩
    generalize F.address = a at hF haddress htreats
    generalize F.chainId = w at hF hc
    subst hF
    have hversion : (m.sheet a w).version = "1" := by
      show decimal m.version.val = _
      rw [hm.version]
      decide
    refine ⟨Option.forall_mem_map.2 hm.scheme, hm.domain, m.address, ⟨haddress, htreats⟩,
      Option.forall_mem_map.2 fun s hs hfilled => ⟨hfilled, hm.statement s hs⟩, hm.uri, hversion, m.version, ?_,
      ⟨hc.1, hc.2.1⟩, m.chainId, hc, hm.nonce, hm.issuedAt, Option.forall_mem_map.2 hm.expirationTime,
      Option.forall_mem_map.2 hm.notBefore, Option.forall_mem_map.2 fun r hr _ => hm.requestId r hr,
      (forall_fields_resources (P := fun t => (splitUri? t).isSome = true)).2 hm.resources, ?_⟩
    · refine ⟨decimal_ne_nil _, isDigit_of_mem_decimal, decimalValue_decimal _⟩
    · show Except.ok _ = _
      simp only [map_text_resources, Except.ok.injEq]
      obtain ⟨scheme, domain, address, statement, uri, version, chainId, nonce, issuedAt, expirationTime, notBefore,
        requestId, resources⟩ := m
      simp only [Message.sheet, Sheet.fields, map_text_at]

end SignIn
