import SignIn.Message.Capture
import SignIn.Message.Printer
/-!
# Messages as sheets of fields

A sheet has the fields of a message as they are written: numbers are digits, and a line that is not written is absent.
`Sheet.text` is the layout, the one that messages are written in and that the structural rules read.

The layout can be read in one way only.  Fields that hold no line feed are found again by the line feeds after them, and
a line that may be absent is known by its label; a scheme ends where the last slash of the first line is, if the domain
has none (`Sheet.text_injective`).
-/
namespace SignIn

/-- **The fields of a message as they are written.** -/
@[ext]
structure Sheet where
  scheme : Option Text
  domain : Text
  address : Text
  statement : Option Text
  uri : Text
  version : Text
  chainId : Text
  nonce : Text
  issuedAt : Text
  expirationTime : Option Text
  notBefore : Option Text
  requestId : Option Text
  resources : Option (List Text)
  deriving DecidableEq

/-- What stands between the domain and the address. -/
def invitation : Text := " wants you to sign in with your Ethereum account:"

def expirationLabel : Text := "Expiration Time: "

def notBeforeLabel : Text := "Not Before: "

def requestIdLabel : Text := "Request ID: "

def resourcesLabel : Text := "Resources:"

/-- A line of its own, with a label. -/
def labelled (label value : Text) : Text := "\n" ++ label ++ value

namespace Sheet

/-! ## The layout, part by part -/

def schemePart (F : Sheet) : Text := optionalPart (· ++ "://") F.scheme

def statementPart (F : Sheet) : Text := "\n" ++ (optionalPart (· ++ "\n") F.statement ++ "\n")

def expirationPart (F : Sheet) : Text := optionalPart (labelled expirationLabel) F.expirationTime

def notBeforePart (F : Sheet) : Text := optionalPart (labelled notBeforeLabel) F.notBefore

def requestIdPart (F : Sheet) : Text := optionalPart (labelled requestIdLabel) F.requestId

/-! ## What comes before each field -/

def uptoAddress (F : Sheet) : Text := F.schemePart ++ F.domain ++ invitation ++ "\n"

def uptoUri (F : Sheet) : Text := F.uptoAddress ++ F.address ++ "\n" ++ F.statementPart ++ RequiredLine.uri.lead

def uptoVersion (F : Sheet) : Text := F.uptoUri ++ F.uri ++ "\n" ++ RequiredLine.version.lead

def uptoChainId (F : Sheet) : Text := F.uptoVersion ++ F.version ++ "\n" ++ RequiredLine.chainId.lead

def uptoNonce (F : Sheet) : Text := F.uptoChainId ++ F.chainId ++ "\n" ++ RequiredLine.nonce.lead

def uptoIssuedAt (F : Sheet) : Text := F.uptoNonce ++ F.nonce ++ "\n" ++ RequiredLine.issuedAt.lead

/-- The layout as far as it is never absent. -/
def required (F : Sheet) : Text := F.uptoIssuedAt ++ F.issuedAt

/-- **The text of a sheet.** -/
def text (F : Sheet) : Text :=
  F.required ++ (F.expirationPart ++ (F.notBeforePart ++ (F.requestIdPart ++ resourcesPart F.resources)))

theorem text_eq (F : Sheet) : F.text = F.schemePart ++ (F.domain ++ (invitation ++ ("\n" ++ (F.address ++ ("\n" ++
    (F.statementPart ++ (RequiredLine.uri.lead ++ (F.uri ++ ("\n" ++ (RequiredLine.version.lead ++ (F.version ++ ("\n" ++
    (RequiredLine.chainId.lead ++ (F.chainId ++ ("\n" ++ (RequiredLine.nonce.lead ++ (F.nonce ++ ("\n" ++
    (RequiredLine.issuedAt.lead ++ (F.issuedAt ++ (F.expirationPart ++ (F.notBeforePart ++ (F.requestIdPart ++
    resourcesPart F.resources))))))))))))))))))))))) := by
  simp only [text, required, uptoIssuedAt, uptoNonce, uptoChainId, uptoVersion, uptoUri, uptoAddress, List.append_assoc]

/-! ## The fields with their places -/

/-- Resources with the places they begin at, after a text. -/
def placed : Text → List Text → List Capture
  | _, [] => []
  | pre, r :: rs => ⟨r, utf8Length (pre ++ "\n- ")⟩ :: placed (pre ++ resourceLine r) rs

/-- **The fields of a sheet, each with the byte at which it begins.** -/
def fields (F : Sheet) : Fields where
  scheme := F.scheme.map (⟨·, 0⟩)
  domain := ⟨F.domain, utf8Length F.schemePart⟩
  address := ⟨F.address, utf8Length F.uptoAddress⟩
  statement := F.statement.map (⟨·, utf8Length (F.uptoAddress ++ F.address ++ "\n" ++ "\n")⟩)
  uri := ⟨F.uri, utf8Length F.uptoUri⟩
  version := ⟨F.version, utf8Length F.uptoVersion⟩
  chainId := ⟨F.chainId, utf8Length F.uptoChainId⟩
  nonce := ⟨F.nonce, utf8Length F.uptoNonce⟩
  issuedAt := ⟨F.issuedAt, utf8Length F.uptoIssuedAt⟩
  expirationTime := F.expirationTime.map (⟨·, utf8Length (F.required ++ labelled expirationLabel [])⟩)
  notBefore := F.notBefore.map (⟨·, utf8Length (F.required ++ F.expirationPart ++ labelled notBeforeLabel [])⟩)
  requestId := F.requestId.map
    (⟨·, utf8Length (F.required ++ F.expirationPart ++ F.notBeforePart ++ labelled requestIdLabel [])⟩)
  resources := F.resources.map
    (placed (F.required ++ F.expirationPart ++ F.notBeforePart ++ F.requestIdPart ++ labelled resourcesLabel []))

theorem map_text_placed : ∀ (pre : Text) (rs : List Text), (placed pre rs).map Capture.text = rs
  | _, [] => rfl
  | pre, r :: rs => by rw [placed, List.map_cons, map_text_placed]

/-! ## Reading the layout -/

/-- **A text without a character ends where that character is.** -/
theorem split_at {k : Char} {x y s t : Text} (hx : k ∉ x) (hy : k ∉ y) (hs : ∀ c, s.head? = some c → c = k)
    (ht : ∀ c, t.head? = some c → c = k) (h : x ++ s = y ++ t) : x = y ∧ s = t := by
  have hcut : ∀ {z u : Text}, k ∉ z → (∀ c, u.head? = some c → c = k) → (z ++ u).takeWhile (· ≠ k) = z := by
    intro z u hz hu
    have hall : ∀ c ∈ z, decide (c ≠ k) = true := by
      intro c hc
      rw [decide_eq_true_eq]
      rintro rfl
      exact hz hc
    rw [List.takeWhile_append_of_pos hall]
    cases u with
    | nil => simp
    | cons c u =>
      obtain rfl := hu c rfl
      simp
  have hxy : x = y := by rw [← hcut hx hs, h, hcut hy ht]
  subst hxy
  exact ⟨rfl, List.append_cancel_left h⟩

theorem split_line {x y s t : Text} (hx : '\n' ∉ x) (hy : '\n' ∉ y) (h : x ++ ("\n" ++ s) = y ++ ("\n" ++ t)) :
    x = y ∧ s = t := by
  obtain ⟨rfl, hst⟩ := split_at hx hy (by simp) (by simp) h
  exact ⟨rfl, List.append_cancel_left hst⟩

/-- **An optional line is found by its label,** if what follows has not that label. -/
theorem split_optional {label : Text} {v w : Option Text} {s t : Text} (hv : ∀ x ∈ v, '\n' ∉ x) (hw : ∀ x ∈ w, '\n' ∉ x)
    (hs : ∀ c, s.head? = some c → c = '\n') (ht : ∀ c, t.head? = some c → c = '\n')
    (hs' : ¬ labelled label [] <+: s) (ht' : ¬ labelled label [] <+: t)
    (h : optionalPart (labelled label) v ++ s = optionalPart (labelled label) w ++ t) : v = w ∧ s = t := by
  have hlab : ∀ x : Text, labelled label x = labelled label [] ++ x := fun x => by simp [labelled]
  cases v with
  | none =>
    cases w with
    | none => exact ⟨rfl, h⟩
    | some y =>
      refine absurd ⟨y ++ t, ?_⟩ hs'
      rw [← List.append_assoc, ← hlab]
      exact h.symm
  | some x =>
    cases w with
    | none =>
      refine absurd ⟨x ++ s, ?_⟩ ht'
      rw [← List.append_assoc, ← hlab]
      exact h
    | some y =>
      simp only [optionalPart] at h
      rw [hlab, hlab y, List.append_assoc, List.append_assoc] at h
      obtain ⟨rfl, hst⟩ := split_at (hv x rfl) (hw y rfl) hs ht (List.append_cancel_left h)
      exact ⟨rfl, hst⟩

theorem resourceLines_injective : ∀ {rs ss : List Text}, (∀ r ∈ rs, '\n' ∉ r) → (∀ r ∈ ss, '\n' ∉ r) →
    rs.flatMap resourceLine = ss.flatMap resourceLine → rs = ss
  | [], [], _, _, _ => rfl
  | [], s :: ss, _, _, h => by simp [resourceLine] at h
  | r :: rs, [], _, _, h => by simp [resourceLine] at h
  | r :: rs, s :: ss, hr, hs, h => by
    have hhead : ∀ us : List Text, ∀ c, (us.flatMap resourceLine).head? = some c → c = '\n' := by
      intro us c hc
      cases us with
      | nil => cases hc
      | cons u us => simpa [resourceLine, eq_comm] using hc
    rw [List.forall_mem_cons] at hr hs
    rw [List.flatMap_cons, List.flatMap_cons, resourceLine, resourceLine, List.append_assoc, List.append_assoc] at h
    obtain ⟨rfl, hrest⟩ := split_at hr.1 hs.1 (hhead rs) (hhead ss) (List.append_cancel_left h)
    rw [resourceLines_injective hr.2 hs.2 hrest]

/-- **No field holds a line feed.** -/
structure LineFree (F : Sheet) : Prop where
  scheme : ∀ s ∈ F.scheme, '\n' ∉ s
  domain : '\n' ∉ F.domain
  address : '\n' ∉ F.address
  statement : ∀ s ∈ F.statement, '\n' ∉ s
  uri : '\n' ∉ F.uri
  version : '\n' ∉ F.version
  chainId : '\n' ∉ F.chainId
  nonce : '\n' ∉ F.nonce
  issuedAt : '\n' ∉ F.issuedAt
  expirationTime : ∀ t ∈ F.expirationTime, '\n' ∉ t
  notBefore : ∀ t ∈ F.notBefore, '\n' ∉ t
  requestId : ∀ t ∈ F.requestId, '\n' ∉ t
  resources : ∀ rs ∈ F.resources, ∀ r ∈ rs, '\n' ∉ r

/-! ### The parts that may be absent -/

theorem resourcesLabel_eq : ("\nResources:" : Text) = "\n" ++ resourcesLabel := by decide

theorem resourcesPart_eq (rs : Option (List Text)) :
    resourcesPart rs = optionalPart (labelled resourcesLabel) (rs.map fun rs => rs.flatMap resourceLine) := by
  cases rs with
  | none => rfl
  | some rs => exact congrArg (· ++ rs.flatMap resourceLine) resourcesLabel_eq

theorem head_optionalPart {label : Text} {v : Option Text} :
    ∀ c, (optionalPart (labelled label) v).head? = some c → c = '\n' := by
  intro c hc
  cases v with
  | none => cases hc
  | some x => simpa [optionalPart, labelled, eq_comm] using hc

theorem head_append {s t : Text} (hs : ∀ c, s.head? = some c → c = '\n') (ht : ∀ c, t.head? = some c → c = '\n') :
    ∀ c, (s ++ t).head? = some c → c = '\n' := by
  cases s with
  | nil => exact ht
  | cons d s => exact hs

/-- The labels of the lines that may be absent, in the order of the lines. -/
def optionalLabels : List Text := [expirationLabel, notBeforeLabel, requestIdLabel, resourcesLabel]

/-- No label begins another one. -/
theorem labels_apart : optionalLabels.Pairwise fun label other => ¬ label <+: other ∧ ¬ other <+: label := by decide

/-- A line that may be absent does not begin with a label that comes before it, nor does what follows it. -/
theorem not_labelled {label other : Text} (h : List.Sublist [other, label] optionalLabels) {v : Option Text} {s : Text}
    (hs : ¬ labelled other [] <+: s) : ¬ labelled other [] <+: optionalPart (labelled label) v ++ s := by
  have hapart := List.pairwise_pair.1 (labels_apart.sublist h)
  cases v with
  | none => exact hs
  | some x =>
    have heq : optionalPart (labelled label) (some x) ++ s = "\n" ++ (label ++ (x ++ s)) := by
      simp only [optionalPart, labelled, List.append_assoc]
    rw [heq, labelled, List.append_nil, List.prefix_append_right_inj]
    intro hpre
    exact (List.prefix_or_prefix_of_prefix hpre (List.prefix_append label _)).elim hapart.1 hapart.2

theorem not_labelled_resources {other : Text} (h : List.Sublist [other, resourcesLabel] optionalLabels)
    (rs : Option (List Text)) : ¬ labelled other [] <+: resourcesPart rs := by
  rw [resourcesPart_eq, ← List.append_nil (optionalPart _ _)]
  refine not_labelled h fun hnil => ?_
  have := List.prefix_nil.1 hnil
  simp [labelled] at this

theorem resourcesPart_injective {v w : Option (List Text)} (hv : ∀ rs ∈ v, ∀ r ∈ rs, '\n' ∉ r)
    (hw : ∀ rs ∈ w, ∀ r ∈ rs, '\n' ∉ r) (h : resourcesPart v = resourcesPart w) : v = w := by
  rw [resourcesPart_eq, resourcesPart_eq] at h
  cases v with
  | none =>
    cases w with
    | none => rfl
    | some ss => simp [optionalPart, labelled] at h
  | some rs =>
    cases w with
    | none => simp [optionalPart, labelled] at h
    | some ss =>
      simp only [Option.map_some, optionalPart, labelled] at h
      rw [resourceLines_injective (hv rs rfl) (hw ss rfl) (List.append_cancel_left h)]

/-- What follows the expiration time has not its label. -/
theorem not_expiration (F : Sheet) :
    ¬ labelled expirationLabel [] <+: F.notBeforePart ++ (F.requestIdPart ++ resourcesPart F.resources) :=
  not_labelled (by decide) (not_labelled (by decide) (not_labelled_resources (by decide) _))

theorem not_notBefore (F : Sheet) : ¬ labelled notBeforeLabel [] <+: F.requestIdPart ++ resourcesPart F.resources :=
  not_labelled (by decide) (not_labelled_resources (by decide) _)

theorem not_requestId (F : Sheet) : ¬ labelled requestIdLabel [] <+: resourcesPart F.resources :=
  not_labelled_resources (by decide) _

theorem head_resources (F : Sheet) : ∀ c, (resourcesPart F.resources).head? = some c → c = '\n' := by
  rw [resourcesPart_eq]
  exact head_optionalPart

theorem head_requestId (F : Sheet) : ∀ c, (F.requestIdPart ++ resourcesPart F.resources).head? = some c → c = '\n' :=
  head_append head_optionalPart F.head_resources

theorem head_notBefore (F : Sheet) :
    ∀ c, (F.notBeforePart ++ (F.requestIdPart ++ resourcesPart F.resources)).head? = some c → c = '\n' :=
  head_append head_optionalPart F.head_requestId

/-- **The optional lines of a sheet are read in one way only.** -/
theorem optional_injective {F G : Sheet} (hF : F.LineFree) (hG : G.LineFree)
    (h : F.expirationPart ++ (F.notBeforePart ++ (F.requestIdPart ++ resourcesPart F.resources)) =
      G.expirationPart ++ (G.notBeforePart ++ (G.requestIdPart ++ resourcesPart G.resources))) :
    F.expirationTime = G.expirationTime ∧ F.notBefore = G.notBefore ∧ F.requestId = G.requestId ∧
      F.resources = G.resources := by
  obtain ⟨h₁, h⟩ := split_optional hF.expirationTime hG.expirationTime F.head_notBefore G.head_notBefore
    F.not_expiration G.not_expiration h
  obtain ⟨h₂, h⟩ := split_optional hF.notBefore hG.notBefore F.head_requestId G.head_requestId F.not_notBefore
    G.not_notBefore h
  obtain ⟨h₃, h⟩ := split_optional hF.requestId hG.requestId F.head_resources G.head_resources F.not_requestId
    G.not_requestId h
  exact ⟨h₁, h₂, h₃, resourcesPart_injective hF.resources hG.resources h⟩

/-! ### The parts that are never absent -/

/-- **A scheme ends at the last slash,** if the domain has none. -/
theorem split_scheme {v w : Option Text} {x y : Text} (hx : '/' ∉ x) (hy : '/' ∉ y)
    (h : optionalPart (· ++ "://") v ++ x = optionalPart (· ++ "://") w ++ y) : v = w ∧ x = y := by
  have hslash : ('/' : Char) ∈ ("://" : Text) := by decide
  cases v with
  | none =>
    cases w with
    | none => exact ⟨rfl, h⟩
    | some t =>
      refine absurd ?_ hx
      rw [show x = (t ++ "://") ++ y from h]
      exact List.mem_append_left _ (List.mem_append_right _ hslash)
  | some s =>
    cases w with
    | none =>
      refine absurd ?_ hy
      rw [show y = (s ++ "://") ++ x from h.symm]
      exact List.mem_append_left _ (List.mem_append_right _ hslash)
    | some t =>
      have hrev := congrArg List.reverse h
      simp only [optionalPart, List.reverse_append] at hrev
      obtain ⟨hxy, hst⟩ := split_at (by rwa [List.mem_reverse]) (by rwa [List.mem_reverse]) (by simp) (by simp) hrev
      rw [List.reverse_inj] at hxy
      have hst := List.reverse_inj.1 (List.append_cancel_left hst)
      exact ⟨congrArg some hst, hxy⟩

theorem head_lead_uri (s : Text) : (RequiredLine.uri.lead ++ s).head? = some 'U' := by
  rw [List.head?_append, show RequiredLine.uri.lead.head? = some 'U' by decide]
  rfl

/-- **A statement is told from its absence** by the empty lines about it. -/
theorem split_statement {v w : Option Text} {x y : Text} (hv : ∀ s ∈ v, '\n' ∉ s) (hw : ∀ s ∈ w, '\n' ∉ s)
    (h : optionalPart (· ++ "\n") v ++ ("\n" ++ (RequiredLine.uri.lead ++ x)) =
      optionalPart (· ++ "\n") w ++ ("\n" ++ (RequiredLine.uri.lead ++ y))) : v = w ∧ x = y := by
  have hnot : ∀ {s z u : Text}, '\n' ∉ s →
      "\n" ++ (RequiredLine.uri.lead ++ z) ≠ s ++ ("\n" ++ ("\n" ++ (RequiredLine.uri.lead ++ u))) := by
    intro s z u hs heq
    obtain ⟨-, htail⟩ := @split_line [] s _ _ (by simp) hs heq
    have hhead := head_lead_uri z
    rw [htail] at hhead
    simp at hhead
  cases v with
  | none =>
    cases w with
    | none => exact ⟨rfl, List.append_cancel_left (List.append_cancel_left h)⟩
    | some t =>
      simp only [optionalPart, List.nil_append, List.append_assoc] at h
      exact absurd h (hnot (hw t rfl))
  | some s =>
    cases w with
    | none =>
      simp only [optionalPart, List.nil_append, List.append_assoc] at h
      exact absurd h.symm (hnot (hv s rfl))
    | some t =>
      simp only [optionalPart, List.append_assoc] at h
      obtain ⟨rfl, hrest⟩ := split_line (hv s rfl) (hw t rfl) h
      exact ⟨rfl, List.append_cancel_left (List.append_cancel_left hrest)⟩

/-- **The layout is read in one way only,** if fields are free of line feeds and domains of slashes. -/
theorem text_injective {F G : Sheet} (hF : F.LineFree) (hG : G.LineFree) (hF' : '/' ∉ F.domain) (hG' : '/' ∉ G.domain)
    (h : F.text = G.text) : F = G := by
  have hfirst : ∀ {H : Sheet}, H.LineFree → '\n' ∉ H.schemePart ++ (H.domain ++ invitation) := by
    intro H hH
    rw [List.mem_append, List.mem_append, not_or, not_or]
    refine ⟨?_, hH.domain, by decide⟩
    cases hs : H.scheme with
    | none => simp [schemePart, optionalPart, hs]
    | some s =>
      have := hH.scheme s hs
      simp [schemePart, optionalPart, hs, this]
  simp only [text_eq, statementPart, List.append_assoc] at h
  rw [← List.append_assoc F.domain, ← List.append_assoc F.schemePart, ← List.append_assoc G.domain,
    ← List.append_assoc G.schemePart] at h
  obtain ⟨hline, h⟩ := split_line (hfirst hF) (hfirst hG) h
  rw [← List.append_assoc, ← List.append_assoc, List.append_left_inj] at hline
  obtain ⟨hscheme, hdomain⟩ := split_scheme hF' hG' hline
  obtain ⟨haddress, h⟩ := split_line hF.address hG.address h
  obtain ⟨hstatement, h⟩ := split_statement hF.statement hG.statement (List.append_cancel_left h)
  obtain ⟨huri, h⟩ := split_line hF.uri hG.uri h
  obtain ⟨hversion, h⟩ := split_line hF.version hG.version (List.append_cancel_left h)
  obtain ⟨hchainId, h⟩ := split_line hF.chainId hG.chainId (List.append_cancel_left h)
  obtain ⟨hnonce, h⟩ := split_line hF.nonce hG.nonce (List.append_cancel_left h)
  obtain ⟨hissuedAt, h⟩ := split_at hF.issuedAt hG.issuedAt (head_append head_optionalPart F.head_notBefore)
    (head_append head_optionalPart G.head_notBefore) (List.append_cancel_left h)
  obtain ⟨hexpiration, hnotBefore, hrequestId, hresources⟩ := optional_injective hF hG h
  exact Sheet.ext hscheme hdomain haddress hstatement huri hversion hchainId hnonce hissuedAt hexpiration hnotBefore
    hrequestId hresources

end Sheet
end SignIn
