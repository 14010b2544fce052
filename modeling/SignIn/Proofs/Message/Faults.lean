import SignIn.Proofs.Message.Valid
import SignIn.Proofs.Rules.Total
/-!
# Where a message fails

The judgment of the fields is a list of checks, each of a field and of the way in which it fails if it does
(`Fields.checks`).  It succeeds if all are passed, and else it fails as the first that is not (`Fields.judge_follows`).
The checks are in the order of the message, so everything that begins before a field at fault is in order, and what the
error tells of the field is what stands there in the message (`parse_localised`).
-/
namespace SignIn

/-! ## Checks -/

/-- **What a field has to be** so that it does not fail in a given way.  A statement and a request id may be empty. -/
def FieldFault.Meets : FieldFault → Text → Prop
  | .scheme, t => matchesRule "scheme" t = .ok true
  | .domain, t => matchesRule "authority" t = .ok true
  | .address, t => matchesRule "address" t = .ok true
  | .notChecksummed, t => isChecksummed t = true
  | .statement, t => t = [] ∨ matchesRule "statement" t = .ok true
  | .uri, t => (splitUri? t).isSome = true
  | .version, t => matchesRule "version" t = .ok true
  | .chainId, t => matchesRule "chain-id" t = .ok true
  | .notANumber, t => t ≠ [] ∧ ∀ c ∈ t, c.isDigit = true
  | .infinity, t => decimalValue t < 2 ^ 128
  | .nonce, t => matchesRule "nonce" t = .ok true
  | .dateTime _, t => matchesRule "date-time" t = .ok true ∧ isDateTime t = true
  | .requestId, t => t = [] ∨ matchesRule "request-id" t = .ok true
  | .resource _, t => (splitUri? t).isSome = true

/-- **The field that a fault names,** among those of a message; of the numbers only a chain id can be too great. -/
def Fields.named (f : Fields) : FieldFault → Option Capture
  | .scheme => f.scheme
  | .domain => some f.domain
  | .address | .notChecksummed => some f.address
  | .statement => f.statement
  | .uri => some f.uri
  | .version => some f.version
  | .chainId | .infinity => some f.chainId
  | .notANumber => none
  | .nonce => some f.nonce
  | .dateTime line =>
    if line = "Issued At" then some f.issuedAt
    else if line = "Expiration Time" then f.expirationTime
    else if line = "Not Before" then f.notBefore
    else none
  | .requestId => f.requestId
  | .resource index => (f.resources.getD [])[index]?

/-- Which faults a policy looks for: that of the spelling only if addresses are validated. -/
def AddressPolicy.Demands (policy : AddressPolicy) (fault : FieldFault) : Prop :=
  fault = .notChecksummed → policy = .validate

/-- **A check of the judgment:** a field, and how it fails if it does. -/
structure Check where
  capture : Capture
  fault : FieldFault

def Check.Passed (k : Check) : Prop := k.fault.Meets k.capture.text

/-- The checks of an address under a policy. -/
def Capture.addressChecks (c : Capture) : AddressPolicy → List Check
  | .validate => [⟨c, .address⟩, ⟨c, .notChecksummed⟩]
  | _ => [⟨c, .address⟩]

/-- The check of a field that may be absent. -/
def Capture.optionalCheck (fault : FieldFault) (c : Option Capture) : List Check := c.toList.map (⟨·, fault⟩)

/-- The checks of resources, counted from an index on. -/
def Capture.resourceChecks : Nat → List Capture → List Check
  | _, [] => []
  | index, c :: cs => ⟨c, .resource index⟩ :: Capture.resourceChecks (index + 1) cs

open Capture (addressChecks optionalCheck resourceChecks)

/-- **The checks of a message in their order.** -/
def Fields.checks (f : Fields) (policy : AddressPolicy) : List Check :=
  optionalCheck .scheme f.scheme ++ (⟨f.domain, .domain⟩ :: (f.address.addressChecks policy ++
    (optionalCheck .statement f.statement ++ (⟨f.uri, .uri⟩ :: ⟨f.version, .version⟩ :: ⟨f.chainId, .chainId⟩ ::
      ⟨f.chainId, .infinity⟩ :: ⟨f.nonce, .nonce⟩ :: ⟨f.issuedAt, .dateTime "Issued At"⟩ ::
        (optionalCheck (.dateTime "Expiration Time") f.expirationTime ++
          (optionalCheck (.dateTime "Not Before") f.notBefore ++ (optionalCheck .requestId f.requestId ++
            resourceChecks 0 (f.resources.getD []))))))))

/-! ## The judgment goes through the checks -/

/-- **A judgment follows checks:** it succeeds if all are passed, and else it fails as the first that is not. -/
inductive Follows {α : Type} (checks : List Check) : Except MessageError α → Prop
  | passed (a : α) (all : ∀ k ∈ checks, k.Passed) : Follows checks (.ok a)
  | failed (before : List Check) (k : Check) (after : List Check) (split : checks = before ++ k :: after)
      (passed : ∀ k ∈ before, k.Passed) (failed : ¬ k.Passed) : Follows checks (.error (k.capture.fail k.fault))

section

variable {α β : Type} {x : Except MessageError α} {g : α → Except MessageError β} {l l' : List Check} {k : Check}

/-- **One judgment after another** goes through the checks of both. -/
theorem Follows.bind (h : Follows l x) (hg : ∀ a, x = .ok a → Follows l' (g a)) : Follows (l ++ l') (x >>= g) := by
  cases h with
  | passed a all =>
    have hnext := hg a rfl
    change Follows (l ++ l') (g a)
    generalize g a = y at hnext ⊢
    cases hnext with
    | passed b all' => exact .passed b (List.forall_mem_append.2 ⟨all, all'⟩)
    | failed before k after split passed failed =>
      refine .failed (l ++ before) k after ?_ (List.forall_mem_append.2 ⟨all, passed⟩) failed
      rw [split, List.append_assoc]
  | failed before k after split passed failed =>
    refine .failed before k (after ++ l') ?_ passed failed
    rw [split, List.append_assoc, List.cons_append]

theorem Follows.cons (h : Follows [k] x) (hg : ∀ a, x = .ok a → Follows l (g a)) : Follows (k :: l) (x >>= g) := h.bind hg

/-- **A judgment fails as the first check that fails.** -/
theorem Follows.of_error {e : MessageError} (h : Follows l (.error e : Except MessageError α)) : ∃ before k after,
    l = before ++ k :: after ∧ (∀ k ∈ before, k.Passed) ∧ ¬ k.Passed ∧ e = k.capture.fail k.fault := by
  cases h with
  | failed before k after split passed failed => exact ⟨before, k, after, split, passed, failed, rfl⟩

/-- A judgment that cannot fail has no check of its own. -/
theorem Follows.skip {a : α} (hx : x = .ok a) (hg : Follows l (g a)) : Follows l (x >>= g) := by
  rw [hx]
  exact hg

theorem follows_one {u : α} (hpass : k.Passed → x = .ok u) (hfail : ¬ k.Passed → x = .error (k.capture.fail k.fault)) :
    Follows [k] x := by
  by_cases hk : k.Passed
  · rw [hpass hk]
    exact .passed u (by simpa using hk)
  · rw [hfail hk]
    exact .failed [] k [] rfl (by simp) hk

end

namespace Capture

variable {c : Capture} {o : Option Capture} {fault : FieldFault} {rule : Text} {judge : Capture → Except MessageError Unit}

/-- **A rule of the bundled grammar is a check,** for its match is decided. -/
theorem require_follows (hrule : rule ∈ bundledNames) (hmeets : fault.Meets c.text ↔ matchesRule rule c.text = .ok true) :
    Follows [⟨c, fault⟩] (c.require rule fault) := by
  refine follows_one (fun h => require_eq_ok.2 (hmeets.1 h)) fun h => ?_
  obtain ⟨b, hb⟩ := matchesRule_total hrule c.text
  cases b with
  | true => exact absurd (hmeets.2 hb) h
  | false => exact require_of_ok hb

theorem requireUri_follows (hmeets : fault.Meets c.text ↔ (splitUri? c.text).isSome = true) :
    Follows [⟨c, fault⟩] (c.requireUri fault) :=
  follows_one (fun h => if_pos (hmeets.1 h)) fun h => if_neg fun h' => h (hmeets.2 h')

theorem requireDateTime_follows (line : Text) : Follows [⟨c, .dateTime line⟩] (c.requireDateTime line) := by
  refine follows_one (fun h => requireDateTime_eq_ok.2 h.2) fun h => ?_
  obtain ⟨b, hb⟩ := matchesRule_total (judged_bundled "date-time" (by simp [judgedNames])) c.text
  rw [requireDateTime, require_of_ok hb]
  cases b with
  | true => exact if_neg fun hd => h ⟨hb, hd⟩
  | false => rfl

/-- **An address is judged as its policy says;** to one that is one, a checksummed spelling can be given. -/
theorem addressUnder_follows (policy : AddressPolicy) : Follows (c.addressChecks policy) (c.addressUnder policy) := by
  have haddress : Follows [⟨c, .address⟩] (c.require "address" .address) :=
    require_follows (judged_bundled "address" (by simp [judgedNames])) Iff.rfl
  unfold addressUnder
  cases policy with
  | validate =>
    refine haddress.cons fun _ _ => follows_one (fun h => if_pos h) fun h => if_neg h
  | convert =>
    refine haddress.cons fun _ h => ?_
    obtain ⟨digits, hdigits, hlen, hhex⟩ := matches_address.1 (require_eq_ok.1 h)
    have hspelling : checksummed c.text = .ok ("0x" ++ spelling digits) :=
      checksummed_eq_ok.2 ⟨digits, hdigits, hlen, hhex, rfl⟩
    dsimp only
    rw [hspelling]
    exact .passed _ (by simp)
  | ignore => exact haddress.cons fun _ _ => .passed _ (by simp)

theorem whenPresent_follows (h : ∀ c, Follows [⟨c, fault⟩] (judge c)) :
    Follows (optionalCheck fault o) (whenPresent o judge) := by
  cases o with
  | none => exact .passed () (by simp [optionalCheck])
  | some c => exact h c

theorem whenFilled_follows (hempty : fault.Meets []) (h : ∀ c : Capture, c.text ≠ [] → Follows [⟨c, fault⟩] (judge c)) :
    Follows (optionalCheck fault o) (whenFilled o judge) := by
  refine whenPresent_follows fun c => ?_
  by_cases hc : c.text = []
  · rw [hc]
    refine .passed () fun k hk => ?_
    rw [List.mem_singleton.1 hk, Check.Passed, hc]
    exact hempty
  · rw [if_neg (by simpa using hc)]
    exact h c hc

theorem requireResources_follows : ∀ (cs : List Capture) (index : Nat),
    Follows (resourceChecks index cs) (requireResources index cs)
  | [], _ => .passed () (by simp [resourceChecks])
  | c :: cs, index => (requireUri_follows Iff.rfl).cons fun _ _ => requireResources_follows cs (index + 1)

/-- A number is too great, or it is one: its rule has seen to its digits. -/
theorem number_follows (hdigits : c.text ≠ [] ∧ ∀ d ∈ c.text, d.isDigit = true) {k : Check} {bound : Nat}
    (hk : k = ⟨c, .infinity⟩) (hbound : bound = 2 ^ 128) : Follows [k] (c.number bound) := by
  subst hk hbound
  have hread : (c.text.isEmpty || !c.text.all Char.isDigit) = false := by simpa using hdigits
  unfold number
  rw [hread, if_neg (by simp)]
  by_cases hlt : decimalValue c.text < 2 ^ 128
  · rw [dif_pos hlt]
    exact follows_one (fun _ => rfl) fun h => absurd hlt h
  · rw [dif_neg hlt]
    exact .failed [] _ [] rfl (by simp) hlt

end Capture

/-- **The judgment of the fields follows their checks.** -/
theorem Fields.judge_follows (f : Fields) (policy : AddressPolicy) : Follows (f.checks policy) (f.judge policy) := by
  have hrule : ∀ {c : Capture} {fault : FieldFault} (rule : String), rule ∈ judgedNames →
      (fault.Meets c.text ↔ matchesRule rule c.text = .ok true) → Follows [⟨c, fault⟩] (c.require rule fault) :=
    fun rule h hmeets => Capture.require_follows (judged_bundled rule h) hmeets
  have hstatement : Follows (optionalCheck .statement f.statement)
      (Capture.whenFilled f.statement fun c => c.require "statement" .statement) :=
    Capture.whenFilled_follows (.inl rfl) fun c hc => hrule "statement" (by simp [judgedNames]) (or_iff_right hc)
  have hrequestId : Follows (optionalCheck .requestId f.requestId)
      (Capture.whenFilled f.requestId fun c => c.require "request-id" .requestId) :=
    Capture.whenFilled_follows (.inl rfl) fun c hc => hrule "request-id" (by simp [judgedNames]) (or_iff_right hc)
  unfold Fields.judge Fields.checks
  refine (Capture.whenPresent_follows fun c => hrule "scheme" (by simp [judgedNames]) Iff.rfl).bind fun _ _ => ?_
  refine (hrule "authority" (by simp [judgedNames]) Iff.rfl).cons fun _ _ => ?_
  refine (Capture.addressUnder_follows policy).bind fun address _ => ?_
  refine hstatement.bind fun _ _ => ?_
  refine (Capture.requireUri_follows Iff.rfl).cons fun _ _ => ?_
  refine (hrule "version" (by simp [judgedNames]) Iff.rfl).cons fun _ hversion => ?_
  have hone : f.version.text = "1" := matches_version.1 (Capture.require_eq_ok.1 hversion)
  have hnumber : f.version.number (2 ^ 32) = .ok 1 := by
    rw [Capture.number_eq_ok, hone]
    exact ⟨by decide, fun c hc => by rw [List.mem_singleton.1 hc]; rfl, rfl⟩
  refine Follows.skip hnumber ?_
  refine (hrule "chain-id" (by simp [judgedNames]) Iff.rfl).cons fun _ hchainId => ?_
  have hdigits := matches_chainId.1 (Capture.require_eq_ok.1 hchainId)
  refine (Capture.number_follows hdigits rfl rfl).cons fun chainId _ => ?_
  refine (hrule "nonce" (by simp [judgedNames]) Iff.rfl).cons fun _ _ => ?_
  refine (Capture.requireDateTime_follows _).cons fun _ _ => ?_
  refine (Capture.whenPresent_follows fun c => Capture.requireDateTime_follows _).bind fun _ _ => ?_
  refine (Capture.whenPresent_follows fun c => Capture.requireDateTime_follows _).bind fun _ _ => ?_
  refine hrequestId.bind fun _ _ => ?_
  rw [← List.append_nil (resourceChecks 0 _)]
  exact (Capture.requireResources_follows _ 0).bind fun _ _ => .passed _ (by simp)

/-! ## The checks and the fields that they name -/

theorem mem_optionalCheck {c : Capture} {fault g : FieldFault} {o : Option Capture} :
    ⟨c, fault⟩ ∈ optionalCheck g o ↔ o = some c ∧ fault = g := by
  cases o with
  | none => simp [optionalCheck]
  | some d => simp [optionalCheck, eq_comm]

theorem mem_addressChecks {c a : Capture} {fault : FieldFault} {policy : AddressPolicy} :
    ⟨c, fault⟩ ∈ a.addressChecks policy ↔
      c = a ∧ (fault = .address ∨ (fault = .notChecksummed ∧ policy = .validate)) := by
  cases policy <;> simp [addressChecks, and_or_left]

theorem mem_resourceChecks {c : Capture} {fault : FieldFault} : ∀ {index : Nat} {cs : List Capture},
    ⟨c, fault⟩ ∈ resourceChecks index cs ↔ ∃ i, cs[i]? = some c ∧ fault = .resource (index + i)
  | index, [] => by simp [resourceChecks]
  | index, d :: cs => by
    rw [resourceChecks, List.mem_cons, mem_resourceChecks]
    constructor
    · rintro (h | ⟨i, hi, rfl⟩)
      · cases h
        exact ⟨0, rfl, rfl⟩
      · exact ⟨i + 1, hi, by rw [Nat.add_assoc, Nat.add_comm 1]⟩
    · rintro ⟨i, hi, rfl⟩
      cases i with
      | zero =>
        cases hi
        exact .inl rfl
      | succ i => exact .inr ⟨i, hi, by rw [Nat.add_assoc, Nat.add_comm 1]⟩

theorem named_dateTime {f : Fields} {line : Text} {c : Capture} : f.named (.dateTime line) = some c ↔
    (c = f.issuedAt ∧ line = "Issued At") ∨ (f.expirationTime = some c ∧ line = "Expiration Time") ∨
      (f.notBefore = some c ∧ line = "Not Before") := by
  have h₁ : ("Issued At" : Text) ≠ "Expiration Time" := by decide
  have h₂ : ("Issued At" : Text) ≠ "Not Before" := by decide
  have h₃ : ("Expiration Time" : Text) ≠ "Not Before" := by decide
  unfold Fields.named
  dsimp only
  by_cases hissued : line = "Issued At"
  · rw [if_pos hissued, hissued]
    simp only [h₁, h₂, and_false, and_true, or_false, Option.some.injEq]
    exact eq_comm
  · rw [if_neg hissued]
    by_cases hexpiration : line = "Expiration Time"
    · rw [if_pos hexpiration, hexpiration]
      simp only [h₁.symm, h₃, and_false, and_true, or_false, false_or]
    · rw [if_neg hexpiration]
      by_cases hbefore : line = "Not Before"
      · rw [if_pos hbefore, hbefore]
        simp only [h₂.symm, h₃.symm, and_false, and_true, false_or]
      · rw [if_neg hbefore]
        simp only [hissued, hexpiration, hbefore, and_false, or_false, reduceCtorEq]

/-- **A check is of the field that its fault names,** and every fault that a policy looks for is checked. -/
theorem Fields.mem_checks {f : Fields} {policy : AddressPolicy} {c : Capture} {fault : FieldFault} :
    ⟨c, fault⟩ ∈ f.checks policy ↔ f.named fault = some c ∧ policy.Demands fault := by
  have hsome : ∀ a : Capture, some a = some c ↔ c = a := fun a => by rw [Option.some.injEq, eq_comm]
  simp only [checks, List.mem_append, List.mem_cons, mem_optionalCheck, mem_addressChecks, mem_resourceChecks,
    Check.mk.injEq, AddressPolicy.Demands]
  cases fault with
  | dateTime line =>
    rw [named_dateTime]
    simp only [reduceCtorEq, and_false, false_and, or_false, false_or, FieldFault.dateTime.injEq, exists_false, false_imp_iff,
      and_true]
  | resource index =>
    simp only [named, reduceCtorEq, and_false, false_and, or_false, false_or, FieldFault.resource.injEq, Nat.zero_add,
      false_imp_iff, and_true]
    constructor
    · rintro ⟨i, hi, rfl⟩
      exact hi
    · exact fun h => ⟨index, h, rfl⟩
  | _ =>
    simp only [named, hsome, reduceCtorEq, and_false, false_and, or_false, false_or, or_self, exists_false, false_imp_iff,
      and_true, true_and, true_imp_iff]

/-! ## The order of the message -/

/-- **Checks of fields that begin one after another,** from a byte on. -/
def Ascends (lo : Nat) (l : List Check) : Prop :=
  (∀ k ∈ l, lo ≤ k.capture.start) ∧ l.Pairwise fun a b => a.capture.start ≤ b.capture.start

section

variable {lo hi : Nat} {l : List Check} {k : Check} {c : Capture} {o : Option Capture} {fault : FieldFault}

theorem Ascends.mono (h : Ascends hi l) (hle : lo ≤ hi) : Ascends lo l := ⟨fun k hk => Nat.le_trans hle (h.1 k hk), h.2⟩

theorem Ascends.cons (h : Ascends hi l) (hlo : lo ≤ c.start) (hhi : c.start ≤ hi) : Ascends lo (⟨c, fault⟩ :: l) :=
  ⟨List.forall_mem_cons.2 ⟨hlo, (h.mono (Nat.le_trans hlo hhi)).1⟩, .cons (h.mono hhi).1 h.2⟩

/-- A field that may be absent begins within a stretch that the others come after. -/
theorem Ascends.optional (h : Ascends hi l) (hle : lo ≤ hi) (ho : ∀ c ∈ o, lo ≤ c.start ∧ c.start ≤ hi) :
    Ascends lo (optionalCheck fault o ++ l) := by
  cases o with
  | none => exact h.mono hle
  | some c =>
    obtain ⟨hlo, hhi⟩ := ho c rfl
    exact h.cons hlo hhi

theorem Ascends.address (policy : AddressPolicy) (h : Ascends hi l) (hlo : lo ≤ c.start) (hhi : c.start ≤ hi) :
    Ascends lo (c.addressChecks policy ++ l) := by
  cases policy with
  | validate =>
    have hspelling : Ascends c.start (⟨c, .notChecksummed⟩ :: l) := h.cons (Nat.le_refl _) hhi
    exact hspelling.cons hlo (Nat.le_refl _)
  | _ => exact h.cons hlo hhi

end

namespace Sheet

theorem prefix_of_mem_placed : ∀ {rs : List Text} {pre : Text}, ∀ c ∈ placed pre rs,
    ∃ before, c.start = utf8Length before ∧ before ++ c.text <+: pre ++ rs.flatMap resourceLine
  | r :: rs, pre, c, hc => by
    rw [List.flatMap_cons, ← List.append_assoc]
    rcases List.mem_cons.1 hc with rfl | hc
    · refine ⟨pre ++ "\n- ", rfl, ?_⟩
      rw [List.append_assoc]
      exact List.prefix_append _ _
    · exact prefix_of_mem_placed c hc

section

variable (F : Sheet)

/-- What stands in a line begins the text, if the line after it does. -/
theorem begins_of_line {F : Sheet} {s t lead u : Text} (h : s ++ t ++ ("\n" : Text) ++ lead ++ u <+: F.text) :
    s ++ t <+: F.text := by
  refine List.IsPrefix.trans ⟨("\n" : Text) ++ lead ++ u, ?_⟩ h
  simp only [List.append_assoc]

theorem begins_issuedAt : F.uptoIssuedAt ++ F.issuedAt <+: F.text := List.prefix_append _ _

theorem begins_nonce : F.uptoNonce ++ F.nonce <+: F.text := begins_of_line F.begins_issuedAt

theorem begins_chainId : F.uptoChainId ++ F.chainId <+: F.text := begins_of_line F.begins_nonce

theorem begins_version : F.uptoVersion ++ F.version <+: F.text := begins_of_line F.begins_chainId

theorem begins_uri : F.uptoUri ++ F.uri <+: F.text := begins_of_line F.begins_version

theorem begins_address : F.uptoAddress ++ F.address <+: F.text := by
  have huri : F.uptoAddress ++ F.address ++ ("\n" : Text) ++ F.statementPart ++ (RequiredLine.uri.lead ++ F.uri) <+:
      F.text := by
    rw [← List.append_assoc]
    exact F.begins_uri
  exact begins_of_line huri

theorem begins_domain : F.schemePart ++ F.domain <+: F.text := by
  refine List.IsPrefix.trans ⟨invitation ++ "\n" ++ F.address, ?_⟩ F.begins_address
  simp only [uptoAddress, List.append_assoc]

variable {F} {t : Text}

theorem begins_scheme (h : F.scheme = some t) : [] ++ t <+: F.text := by
  refine List.IsPrefix.trans ⟨"://" ++ F.domain, ?_⟩ F.begins_domain
  rw [schemePart, h]
  simp only [optionalPart, List.nil_append, List.append_assoc]

theorem begins_statement (h : F.statement = some t) :
    F.uptoAddress ++ F.address ++ ("\n" : Text) ++ ("\n" : Text) ++ t <+: F.text := by
  refine List.IsPrefix.trans ⟨("\n" : Text) ++ "\n" ++ RequiredLine.uri.lead ++ F.uri, ?_⟩ F.begins_uri
  rw [uptoUri, statementPart, h]
  simp only [optionalPart, List.append_assoc]

/-- A field in a line of its own. -/
theorem begins_labelled {label s rest : Text} {v : Option Text} (hv : v = some t)
    (htext : F.text = s ++ (optionalPart (labelled label) v ++ rest)) : s ++ labelled label [] ++ t <+: F.text := by
  rw [htext, hv]
  refine ⟨rest, ?_⟩
  simp only [optionalPart, labelled, List.append_nil, List.append_assoc]

/-- **A field stands where the sheet says that it begins.** -/
theorem stands (F : Sheet) {fault : FieldFault} {c : Capture} (h : F.fields.named fault = some c) :
    ∃ pre, c.start = utf8Length pre ∧ pre ++ c.text <+: F.text := by
  have hat : ∀ {pre t : Text}, pre ++ t <+: F.text → ⟨t, utf8Length pre⟩ = c →
      ∃ pre, c.start = utf8Length pre ∧ pre ++ c.text <+: F.text := by
    rintro pre t hpre rfl
    exact ⟨pre, rfl, hpre⟩
  cases fault with
  | scheme =>
    obtain ⟨t, ht, heq⟩ := Option.map_eq_some_iff.1 h
    exact hat (begins_scheme ht) heq
  | domain => exact hat F.begins_domain (Option.some.inj h)
  | address => exact hat F.begins_address (Option.some.inj h)
  | notChecksummed => exact hat F.begins_address (Option.some.inj h)
  | statement =>
    obtain ⟨t, ht, heq⟩ := Option.map_eq_some_iff.1 h
    exact hat (begins_statement ht) heq
  | uri => exact hat F.begins_uri (Option.some.inj h)
  | version => exact hat F.begins_version (Option.some.inj h)
  | chainId => exact hat F.begins_chainId (Option.some.inj h)
  | infinity => exact hat F.begins_chainId (Option.some.inj h)
  | notANumber => cases h
  | nonce => exact hat F.begins_nonce (Option.some.inj h)
  | dateTime line =>
    rcases named_dateTime.1 h with ⟨heq, -⟩ | ⟨h, -⟩ | ⟨h, -⟩
    · exact hat F.begins_issuedAt heq.symm
    · obtain ⟨t, ht, heq⟩ := Option.map_eq_some_iff.1 h
      exact hat (begins_labelled ht rfl) heq
    · obtain ⟨t, ht, heq⟩ := Option.map_eq_some_iff.1 h
      exact hat (begins_labelled ht (by rw [text, List.append_assoc]; rfl)) heq
  | requestId =>
    obtain ⟨t, ht, heq⟩ := Option.map_eq_some_iff.1 h
    exact hat (begins_labelled ht (by rw [text, List.append_assoc, List.append_assoc]; rfl)) heq
  | resource index =>
    have hmem := List.mem_of_getElem? h
    cases hrs : F.resources with
    | none =>
      simp only [fields, hrs, Option.map_none, Option.getD_none, List.not_mem_nil] at hmem
    | some rs =>
      simp only [fields, hrs, Option.map_some, Option.getD_some] at hmem
      obtain ⟨pre, hstart, hpre⟩ := prefix_of_mem_placed c hmem
      refine ⟨pre, hstart, ?_⟩
      simp only [text, resourcesPart_eq, hrs, Option.map_some, optionalPart, labelled, List.append_nil,
        List.append_assoc] at hpre ⊢
      exact hpre

end

end Sheet

/-! ## Faults are told where they are, and the first of them -/

/-- **The structural rules accept a text.** -/
def IsStructured (text : Text) : Prop :=
  ∃ report, (messageMatcher.parse Rules.firstPass text.toArray .empty).result = .ok report ∧ report.success = true

/-- A text that is not cut has no field at fault. -/
theorem ofParsed_ne_field {input : Array Char} {parsed : Parsed MessageCapture Unit} {fault : FieldFault} {value : Text}
    {span : Span} : Fields.ofParsed input parsed ≠ .error (.field fault value span) := by
  unfold Fields.ofParsed
  intro h
  split at h
  · cases h
  · cases h
  · split at h <;> cases h

/-- **The judgment of the fields adds no error but that of a field.** -/
theorem parse_eq_unless_field {text : Text} {policy : AddressPolicy} {e : MessageError}
    (he : ∀ fault value span, e ≠ .field fault value span) :
    Message.parse text policy = .error e ↔ Fields.ofText text = .error e := by
  rw [Message.parse]
  cases htext : Fields.ofText text with
  | error e' =>
    exact ⟨fun h => congrArg Except.error (Except.error.inj h), fun h => congrArg Except.error (Except.error.inj h)⟩
  | ok f =>
    refine iff_of_false (fun h => ?_) (by simp)
    have hfollows := f.judge_follows policy
    rw [show f.judge policy = .error e from h] at hfollows
    obtain ⟨_, _, _, _, _, _, herror⟩ := hfollows.of_error
    exact he _ _ _ herror

theorem parse_eq_field {text : Text} {policy : AddressPolicy} {fault : FieldFault} {value : Text} {span : Span} :
    Message.parse text policy = .error (.field fault value span) ↔
      ∃ f, Fields.ofText text = .ok f ∧ f.judge policy = .error (.field fault value span) := by
  have hne : Fields.ofText text ≠ .error (.field fault value span) := ofParsed_ne_field
  rw [Message.parse]
  generalize Fields.ofText text = x at hne
  cases x with
  | error e =>
    constructor
    · intro h
      exact absurd (congrArg Except.error (Except.error.inj h)) hne
    · rintro ⟨_, h, -⟩
      cases h
  | ok f =>
    constructor
    · exact fun h => ⟨f, rfl, h⟩
    · rintro ⟨_, h, hjudge⟩
      cases h
      exact hjudge

end SignIn
