import SignIn.Message.Field
import SignIn.Proofs.Message.Lines
/-!
# Cutting a message into its fields

The structural rules take a text exactly if it is the text of a sheet that can be cut (`Sheet.Cut`), and then what the
callbacks have noted at the end is that sheet, each field with its place (`ofText_eq_ok`).

Callbacks note what they see and nothing is undone, so the statement has two parts for each rule: what it takes, and
that what it notes where it is refused is nothing.  The one place where an option yields to what follows it is the
scheme: a text without a scheme must not go on as one would, up to `://`.  The required lines differ in their words
alone, so what their rules take and note is said once, of a line (`RequiredLine`).
-/
namespace SignIn

open MessageCapture (actions onLine onLead)
open Lexicon

/-- A text that begins with a scheme and `://`. -/
def Schemed (x : Text) : Prop := ∃ s rest, Fills ':' s ∧ x = s ++ ("://" ++ rest)

/-- What fills a line, or nothing. -/
def Line (x : Text) : Prop := ∀ c ∈ x, AsciiBut '\n' c

/-- **A sheet that the structural rules can cut.** -/
structure Sheet.Cut (F : Sheet) : Prop where
  scheme : ∀ s ∈ F.scheme, Fills ':' s
  noScheme : F.scheme = none → ¬ Schemed F.text
  domain : Fills ' ' F.domain
  address : Fills '\n' F.address
  statement : ∀ s ∈ F.statement, Line s
  uri : Fills '\n' F.uri
  version : Fills '\n' F.version
  chainId : Fills '\n' F.chainId
  nonce : Fills '\n' F.nonce
  issuedAt : Fills '\n' F.issuedAt
  expirationTime : ∀ t ∈ F.expirationTime, Fills '\n' t
  notBefore : ∀ t ∈ F.notBefore, Fills '\n' t
  requestId : ∀ t ∈ F.requestId, Line t
  resources : ∀ rs ∈ F.resources, ∀ r ∈ rs, Fills '\n' r

/-- The notes of a message that was cut into these fields. -/
def Fields.noted (f : Fields) : MessageCapture where
  scheme := f.scheme
  domain := f.domain
  address := f.address
  statement := f.statement
  uri := f.uri
  version := f.version
  chainId := f.chainId
  nonce := f.nonce
  issuedAt := f.issuedAt
  expirationTime := f.expirationTime
  notBefore := f.notBefore
  requestId := f.requestId
  resources := f.resources
  missing := none

theorem fields?_noted (f : Fields) : f.noted.fields? = some f := rfl

theorem noted_injective {f g : Fields} (h : f.noted = g.noted) : f = g := by
  have hfields := congrArg MessageCapture.fields? h
  rwa [fields?_noted, fields?_noted, Option.some.injEq] at hfields

theorem fields?_eq_some {c : MessageCapture} {f : Fields} (hm : c.missing = none) : c.fields? = some f ↔ c = f.noted := by
  constructor
  · intro h
    obtain ⟨scheme, domain, address, statement, uri, version, chainId, nonce, issuedAt, expirationTime, notBefore, requestId,
      resources, missing⟩ := c
    simp only [MessageCapture.fields?, Option.bind_eq_bind, Option.bind_eq_some_iff, Option.pure_def, Option.some.injEq] at h
    obtain ⟨_, rfl, _, rfl, _, rfl, _, rfl, _, rfl, _, rfl, _, rfl, rfl⟩ := h
    rw [Fields.noted, ← hm]
  · rintro rfl
    exact fields?_noted f

/-- **One field noted,** in place of what was noted of it.  Resources are noted one by one. -/
def MessageCapture.note (c : MessageCapture) (v : Option Capture) : Field → MessageCapture
  | .scheme => { c with scheme := v }
  | .domain => { c with domain := v }
  | .address => { c with address := v }
  | .statement => { c with statement := v }
  | .uri => { c with uri := v }
  | .version => { c with version := v }
  | .chainId => { c with chainId := v }
  | .nonce => { c with nonce := v }
  | .issuedAt => { c with issuedAt := v }
  | .expirationTime => { c with expirationTime := v }
  | .notBefore => { c with notBefore := v }
  | .requestId => { c with requestId := v }
  | .resources => c

/-! ## The rules by their names -/

namespace RequiredLine

/-- The required lines in their order. -/
def all : List RequiredLine := [.uri, .version, .chainId, .nonce, .issuedAt]

theorem mem_all (line : RequiredLine) : line ∈ all := by cases line <;> decide

/-- The rule of a line's lead. -/
def leadRule : RequiredLine → Text
  | .uri => "pre-uri"
  | .version => "pre-version"
  | .chainId => "pre-chain-id"
  | .nonce => "pre-nonce"
  | .issuedAt => "pre-issued-at"

/-- The rule of a line's value. -/
def valueRule : RequiredLine → Text
  | .uri => "furi"
  | .version => "fversion"
  | .chainId => "fchain-id"
  | .nonce => "fnonce"
  | .issuedAt => "fissued-at"

/-- What a line's value is noted as. -/
def field : RequiredLine → Field
  | .uri => .uri
  | .version => .version
  | .chainId => .chainId
  | .nonce => .nonce
  | .issuedAt => .issuedAt

/-- The items of a line that another follows. -/
def items (line : RequiredLine) : List Expr := [.rnm line.leadRule, .rnm line.valueRule, Rules.lf]

end RequiredLine

namespace Rules

/-- What comes before the statement. -/
def greeting : List Expr :=
  [.opt (.rnm "ffscheme"), .rnm "fdomain", .tbs " wants you to sign in with your Ethereum account:", lf, .rnm "faddress", lf]

/-- A statement or none, between line feeds. -/
def statement : Expr := .alt [.rnm "empty-statement", .rnm "no-statement", .rnm "actual-statement"]

/-- What comes after the last lead. -/
def closing : List Expr :=
  [.rnm "fissued-at", optionalLine "Expiration Time: " "fexpiration-time", optionalLine "Not Before: " "fnot-before",
    optionalLine "Request ID: " "frequest-id", optionalLine "Resources:" "fresources"]

/-- What comes before the required lines. -/
def opening : List Expr := greeting ++ [statement]

theorem messageBody_eq : messageBody = .cat (opening ++ ([.uri, .version, .chainId, .nonce].flatMap RequiredLine.items ++
    .rnm RequiredLine.issuedAt.leadRule :: closing)) := rfl

end Rules

/-- **The rules that fill a line,** each with the field that it notes. -/
def lineRules : List (Text × Field) := [
  ("faddress", .address), ("fstatement", .statement), ("furi", .uri), ("fversion", .version), ("fchain-id", .chainId),
  ("fnonce", .nonce), ("fissued-at", .issuedAt), ("fexpiration-time", .expirationTime), ("fnot-before", .notBefore)]

section

variable {name : Text} {body : Expr} {f : Callback MessageCapture} {field : Field} {counter : Counter}

theorem message_bound (h : (name, body) ∈ Rules.structural) (hf : (name, f) ∈ actions) :
    (messageLexicon counter).Defines name body (some f) :=
  (messageMatcher_bound counter).2.2.1.bound
    (List.mem_append_left _ (List.mem_append_left _ (List.mem_append_left _ h))) hf

theorem message_plain (h : (name, body) ∈ Rules.structural) (hf : name ∉ actions.map (·.1)) :
    (messageLexicon counter).Defines name body none :=
  (messageMatcher_bound counter).2.2.1.plain
    (List.mem_append_left _ (List.mem_append_left _ (List.mem_append_left _ h))) hf

/-- **A rule that fills a line notes its field.** -/
theorem defines_line (h : (name, field) ∈ lineRules) :
    messageLexicon.Defines name (.plus Rules.lineChar) (some (onLine fun f c => c.note (some f) field)) := by
  have hrules : ∀ r ∈ lineRules, (r.1, Expr.plus Rules.lineChar) ∈ Rules.structural := by
    simp [lineRules, Rules.structural]
  have hactions : ∀ r ∈ lineRules, (r.1, onLine fun f c => c.note (some f) r.2) ∈ actions := by
    simp [lineRules, actions, MessageCapture.note]
  exact message_bound (hrules _ h) (hactions _ h)

end

theorem defines_address : messageLexicon.Defines "faddress" (.plus Rules.lineChar)
    (some (onLine fun f c => c.note (some f) .address)) := defines_line (by decide)

theorem defines_statement : messageLexicon.Defines "fstatement" (.plus Rules.lineChar)
    (some (onLine fun f c => c.note (some f) .statement)) := defines_line (by decide)

theorem defines_expirationTime : messageLexicon.Defines "fexpiration-time" (.plus Rules.lineChar)
    (some (onLine fun f c => c.note (some f) .expirationTime)) := defines_line (by decide)

theorem defines_notBefore : messageLexicon.Defines "fnot-before" (.plus Rules.lineChar)
    (some (onLine fun f c => c.note (some f) .notBefore)) := defines_line (by decide)

namespace RequiredLine

/-- The leads and their rules. -/
theorem structural_leads : (Rules.structural.drop 1).take 5 = all.map fun l => (l.leadRule, .tbs l.lead) := rfl

/-- The leads and their callbacks. -/
theorem actions_leads : actions.drop 16 = all.map fun l => (l.leadRule, onLead l) := rfl

theorem defines_leadRule (line : RequiredLine) :
    messageLexicon.Defines line.leadRule (.tbs line.lead) (some (onLead line)) := by
  have hrule : (line.leadRule, .tbs line.lead) ∈ (Rules.structural.drop 1).take 5 := by
    rw [structural_leads]
    exact List.mem_map_of_mem line.mem_all
  have haction : (line.leadRule, onLead line) ∈ actions.drop 16 := by
    rw [actions_leads]
    exact List.mem_map_of_mem line.mem_all
  exact message_bound (List.mem_of_mem_drop (List.mem_of_mem_take hrule)) (List.mem_of_mem_drop haction)

theorem defines_valueRule (line : RequiredLine) : messageLexicon.Defines line.valueRule (.plus Rules.lineChar)
    (some (onLine fun f c => c.note (some f) line.field)) := defines_line (by cases line <;> decide)

end RequiredLine

theorem defines_domain : messageLexicon.Defines "fdomain" (.plus (.alt [.trg 0 31, .trg 33 127]))
    (some (onLine fun f c => c.note (some f) .domain)) :=
  message_bound (f := onLine fun f c => { c with domain := some f })
    (by simp only [Rules.structural, List.mem_cons, true_or, or_true])
    (by simp only [actions, List.mem_cons, true_or, or_true])

theorem defines_requestId : messageLexicon.Defines "frequest-id" (.star Rules.lineChar) (some MessageCapture.onRequestId) :=
  message_bound (by simp only [Rules.structural, List.mem_cons, true_or, or_true])
    (by simp only [actions, List.mem_cons, true_or, or_true])

theorem defines_resources : messageLexicon.Defines "fresources" (.star (.cat [Rules.lf, .rnm "fresource"]))
    (some MessageCapture.onResources) :=
  message_bound (by simp only [Rules.structural, List.mem_cons, true_or, or_true])
    (by simp only [actions, List.mem_cons, true_or, or_true])

theorem defines_resource : messageLexicon.Defines "fresource" (.cat [.tls "- ", .plus Rules.lineChar])
    (some MessageCapture.onResource) :=
  message_bound (by simp only [Rules.structural, List.mem_cons, true_or, or_true])
    (by simp only [actions, List.mem_cons, true_or, or_true])

theorem defines_scheme {counter : Counter} : (messageLexicon counter).Defines "ffscheme"
    (.cat [.rnm "fscheme", .tbs "://"]) (some MessageCapture.onScheme) :=
  message_bound (by simp only [Rules.structural, List.mem_cons, true_or, or_true])
    (by simp only [actions, List.mem_cons, true_or])

theorem defines_emptyStatement : messageLexicon.Defines "empty-statement" (.tbs "\n\n\n")
    (some MessageCapture.onEmptyStatement) :=
  message_bound (by simp only [Rules.structural, List.mem_cons, true_or, or_true])
    (by simp only [actions, List.mem_cons, true_or, or_true])

theorem defines_noStatement : messageLexicon.Defines "no-statement" (.tbs "\n\n") (some MessageCapture.onNoStatement) :=
  message_bound (by simp only [Rules.structural, List.mem_cons, true_or, or_true])
    (by simp only [actions, List.mem_cons, true_or, or_true])

theorem defines_firstPass {counter : Counter} :
    (messageLexicon counter).Defines Rules.firstPass Rules.messageBody none :=
  message_plain (by simp only [Rules.structural, List.mem_cons, true_or]) (by decide)

theorem defines_schemeSlot {counter : Counter} :
    (messageLexicon counter).Defines "fscheme" (.plus (.alt [.trg 0 57, .trg 59 127])) none :=
  message_plain (by simp only [Rules.structural, List.mem_cons, true_or, or_true]) (by decide)

theorem defines_actualStatement : messageLexicon.Defines "actual-statement"
    (.cat [Rules.lf, .rnm "fstatement", .tbs "\n\n"]) none :=
  message_plain (by simp only [Rules.structural, List.mem_cons, true_or, or_true]) (by decide)

/-! ## The groups of items, in their order -/

variable {es : List Expr} {pre x post : Text} {d d' : MessageCapture}

theorem class_scheme : messageLexicon.Class (.alt [.trg 0 57, .trg 59 127]) (AsciiBut ':') :=
  class_but (by decide) (by decide)

theorem class_domain : messageLexicon.Class (.alt [.trg 0 31, .trg 33 127]) (AsciiBut ' ') :=
  class_but (by decide) (by decide)

theorem takes_scheme : messageLexicon.Takes (.rnm "ffscheme") pre x post d d' ↔
    ∃ s, x = s ++ "://" ∧ Fills ':' s ∧ d' = d.note (some ⟨s, utf8Length pre⟩) .scheme := by
  have hslot : ∀ {pre x post d d'}, messageLexicon.Takes (.rnm "fscheme") pre x post d d' ↔
      Fills ':' x ∧ Ends ':' post ∧ d' = d := by
    intro pre x post d d'
    rw [takes_rnm defines_schemeSlot, takes_plus_class class_scheme, ← and_assoc]
    rfl
  rw [takes_rnm_onMatch defines_scheme]
  simp only [takes_cat_cons, takes_cat_nil, takes_tbs, hslot]
  have hnote : ∀ (s : Text) (d : MessageCapture), (if s ++ ("://" : Text) = [] then d else
      { d with scheme := some (.ofInput (pre ++ ((s ++ "://") ++ post)).toArray pre.length ((s ++ "://").length - 3)) }) =
      d.note (some ⟨s, utf8Length pre⟩) .scheme := by
    intro s d
    rw [if_neg (by simp)]
    exact congrArg (fun c => { d with scheme := some c }) (window_capture_before pre s "://" post)
  constructor
  · rintro ⟨_, ⟨s, _, _, rfl, ⟨hs, -, rfl⟩, _, _, _, rfl, ⟨rfl, rfl⟩, rfl, rfl⟩, rfl⟩
    exact ⟨s, by rw [List.append_nil], hs, by rw [List.append_nil]; exact hnote s _⟩
  · rintro ⟨s, rfl, hs, rfl⟩
    refine ⟨d, ⟨s, "://", d, rfl, ⟨hs, ?_, rfl⟩, "://", [], d, by rw [List.append_nil], ⟨rfl, rfl⟩, rfl, rfl⟩, hnote s d⟩
    exact ends_of_head (by simp)

/-- A scheme is refused where none stands. -/
theorem refuses_scheme : messageLexicon.Refuses (.rnm "ffscheme") pre post d d' ↔ ¬ Schemed post ∧ d' = d := by
  have hnone : ∀ {d'}, messageLexicon.Refuses (.rnm "ffscheme") pre post d d' → ¬ Schemed post := by
    rintro d' h ⟨s, rest, hs, rfl⟩
    rw [← List.append_assoc] at h
    exact Takes.not_refuses (takes_scheme.2 ⟨s, rfl, hs, rfl⟩) h
  have hquiet : ∀ {d'}, messageLexicon.Refuses (.rnm "ffscheme") pre post d d' → d' = d := by
    intro d' h
    rw [refuses_rnm_onMatch defines_scheme, refuses_cat_cons, refuses_rnm defines_schemeSlot,
      refuses_plus_class class_scheme] at h
    rcases h with h | ⟨y, z, d₁, rfl, hslot, h⟩
    · exact h.2
    rw [takes_rnm defines_schemeSlot, takes_plus_class class_scheme] at hslot
    obtain ⟨-, -, -, rfl⟩ := hslot
    rw [refuses_cat_cons, refuses_tbs] at h
    rcases h with h | ⟨_, _, _, _, _, h⟩
    · exact h.2
    · exact absurd h refuses_cat_nil
  refine ⟨fun h => ⟨hnone h, hquiet h⟩, ?_⟩
  rintro ⟨hno, rfl⟩
  rw [refuses_rnm_onMatch defines_scheme, refuses_cat_cons, refuses_rnm defines_schemeSlot,
    refuses_plus_class class_scheme]
  by_cases hend : Ends ':' post
  · exact .inl ⟨hend, rfl⟩
  simp only [Ends, not_forall, not_not] at hend
  obtain ⟨c, hc, hfits⟩ := hend
  obtain ⟨s, rest, rfl, hs⟩ := takes_plus_class_of_head class_scheme pre d' hc hfits
  refine .inr ⟨s, rest, d', rfl, (takes_rnm defines_schemeSlot).2 hs, refuses_cat_cons.2 (.inl (refuses_tbs.2 ⟨?_, rfl⟩))⟩
  rintro ⟨rest', rfl⟩
  obtain ⟨hne, hfill, -⟩ := (takes_plus_class class_scheme).1 hs
  exact hno ⟨s, rest', ⟨hne, hfill⟩, rfl⟩

/-- **The scheme, if there is one.**  Nothing is noted yet. -/
theorem takes_schemePart : messageLexicon.Takes (.cat (.opt (.rnm "ffscheme") :: es)) [] x post .empty d' ↔ ∃ v z,
    x = optionalPart (· ++ "://") v ++ z ∧ (∀ s ∈ v, Fills ':' s) ∧ (v = none → ¬ Schemed (x ++ post)) ∧
      messageLexicon.Takes (.cat es) (optionalPart (· ++ "://") v) z post
        (MessageCapture.empty.note (v.map (⟨·, 0⟩)) .scheme) d' := by
  have hnil : ¬ Schemed [] := by
    rintro ⟨s, rest, -, h⟩
    simp at h
  rw [takes_cat_cons]
  simp only [takes_opt, takes_scheme, refuses_scheme]
  constructor
  · rintro ⟨y, z, d₁, rfl, ⟨rfl, hend, rfl⟩ | ⟨-, ⟨s, rfl, hs, rfl⟩ | ⟨rfl, hno, rfl⟩⟩, h⟩
    · exact ⟨none, z, rfl, by simp, fun _ => by rw [List.nil_append, hend]; exact hnil, h⟩
    · exact ⟨some s, z, rfl, by simpa using hs, by simp, h⟩
    · exact ⟨none, z, rfl, by simp, fun _ => hno, h⟩
  · rintro ⟨v, z, rfl, hv, hno, h⟩
    refine ⟨_, z, _, rfl, ?_, h⟩
    cases v with
    | some s => exact .inr ⟨by simp [optionalPart], .inl ⟨s, rfl, hv s rfl, rfl⟩⟩
    | none =>
      by_cases hend : z ++ post = []
      · exact .inl ⟨rfl, hend, rfl⟩
      · exact .inr ⟨hend, .inr ⟨rfl, hno rfl, rfl⟩⟩

theorem takes_emptyStatement : messageLexicon.Takes (.rnm "empty-statement") pre x post d d' ↔
    x = "\n\n\n" ∧ d' = d.note (some ⟨[], utf8Length (pre ++ "\n")⟩) .statement := by
  have hnote : Capture.ofInput (pre ++ (("\n\n\n" : Text) ++ post)).toArray (pre.length + 1) 0 =
      ⟨[], utf8Length (pre ++ "\n")⟩ := by
    have h := window_capture (pre ++ "\n") [] ("\n\n" ++ post)
    rwa [List.append_assoc, List.length_append] at h
  rw [takes_rnm_onMatch defines_emptyStatement]
  simp only [takes_tbs]
  constructor
  · rintro ⟨d₁, ⟨rfl, rfl⟩, rfl⟩
    rw [if_neg (by simp), hnote]
    exact ⟨rfl, rfl⟩
  · rintro ⟨rfl, rfl⟩
    refine ⟨d, ⟨rfl, rfl⟩, ?_⟩
    rw [if_neg (by simp), hnote]
    rfl

theorem refuses_emptyStatement : messageLexicon.Refuses (.rnm "empty-statement") pre post d d' ↔
    ¬ ("\n\n\n" : Text) <+: post ∧ d' = d := by
  rw [refuses_rnm_onMatch defines_emptyStatement, refuses_tbs]

theorem takes_noStatement : messageLexicon.Takes (.rnm "no-statement") pre x post d d' ↔
    x = "\n\n" ∧ d' = d.note none .statement := by
  rw [takes_rnm_onMatch defines_noStatement]
  simp only [takes_tbs]
  constructor
  · rintro ⟨d₁, ⟨rfl, rfl⟩, rfl⟩
    exact ⟨rfl, if_neg (by simp)⟩
  · rintro ⟨rfl, rfl⟩
    exact ⟨d, ⟨rfl, rfl⟩, if_neg (by simp)⟩

theorem refuses_noStatement : messageLexicon.Refuses (.rnm "no-statement") pre post d d' ↔
    ¬ ("\n\n" : Text) <+: post ∧ d' = d := by
  rw [refuses_rnm_onMatch defines_noStatement, refuses_tbs]

theorem takes_actualStatement : messageLexicon.Takes (.rnm "actual-statement") pre x post d d' ↔
    ∃ s, x = "\n" ++ (s ++ "\n\n") ∧ Fills '\n' s ∧ d' = d.note (some ⟨s, utf8Length (pre ++ "\n")⟩) .statement := by
  rw [takes_rnm defines_actualStatement, takes_cat_lf]
  simp only [takes_cat_slot defines_statement class_lineChar, takes_cat_tbs, takes_cat_nil]
  constructor
  · rintro ⟨_, rfl, s, _, rfl, hs, -, _, rfl, rfl, rfl⟩
    exact ⟨s, by rw [List.append_nil], hs, rfl⟩
  · rintro ⟨s, rfl, hs, rfl⟩
    exact ⟨_, rfl, s, _, rfl, hs, ends_lf ("\n" ++ post), [], by rw [List.append_nil], rfl, rfl⟩

/-- **The statement, or none.**  Without a statement no line feed may come next. -/
theorem takes_statement : messageLexicon.Takes
    (.alt [.rnm "empty-statement", .rnm "no-statement", .rnm "actual-statement"]) pre x post d d' ↔ ∃ v,
      x = "\n" ++ (optionalPart (· ++ "\n") v ++ "\n") ∧ (∀ s ∈ v, Line s) ∧ (v = none → post.head? ≠ some '\n') ∧
        d' = d.note (v.map (⟨·, utf8Length (pre ++ "\n")⟩)) .statement := by
  simp only [takes_alt_cons, takes_alt_nil, takes_emptyStatement, takes_noStatement, takes_actualStatement,
    refuses_emptyStatement, refuses_noStatement, and_false, exists_false, or_false]
  constructor
  · rintro (⟨rfl, rfl⟩ | ⟨_, ⟨hno, rfl⟩, ⟨rfl, rfl⟩ | ⟨_, ⟨-, rfl⟩, s, rfl, hs, rfl⟩⟩)
    · exact ⟨some [], rfl, by simp [Line], by simp, rfl⟩
    · refine ⟨none, rfl, by simp, fun _ hpost => hno ?_, rfl⟩
      rw [List.eq_cons_of_mem_head? hpost]
      exact ⟨post.tail, rfl⟩
    · exact ⟨some s, by simp [optionalPart], by simpa [Line] using hs.2, by simp, rfl⟩
  · rintro ⟨_ | _ | ⟨c, s⟩, rfl, hv, hpost, rfl⟩
    · refine .inr ⟨d, ⟨?_, rfl⟩, .inl ⟨rfl, rfl⟩⟩
      rintro ⟨rest, hrest⟩
      refine hpost rfl ?_
      have hrest : ("\n\n" : Text) ++ ("\n" ++ rest) = "\n\n" ++ post := hrest
      rw [← List.append_cancel_left hrest]
      rfl
    · exact .inl ⟨rfl, rfl⟩
    · have hs : Fills '\n' (c :: s) := ⟨List.cons_ne_nil _ _, hv _ rfl⟩
      have hc : c ≠ '\n' := (hs.2 c List.mem_cons_self).2
      refine .inr ⟨d, ⟨?_, rfl⟩, .inr ⟨d, ⟨?_, rfl⟩, c :: s, by simp [optionalPart], hs, rfl⟩⟩
      · simp [optionalPart, Ne.symm hc]
      · simp [optionalPart, Ne.symm hc]

/-! ## Fields of optional lines -/

theorem takes_requestId : messageLexicon.Takes (.rnm "frequest-id") pre x post d d' ↔
    Line x ∧ Ends '\n' post ∧ d' = d.note (some ⟨x, utf8Length pre⟩) .requestId := by
  rw [takes_rnm_onSuccess defines_requestId]
  simp only [takes_star_class class_lineChar, window_capture]
  constructor
  · rintro ⟨d₁, ⟨hx, hpost, rfl⟩, rfl⟩
    exact ⟨hx, hpost, rfl⟩
  · rintro ⟨hx, hpost, rfl⟩
    exact ⟨d, ⟨hx, hpost, rfl⟩, rfl⟩

theorem takes_resource : messageLexicon.Takes (.rnm "fresource") pre x post d d' ↔ ∃ r, x = "- " ++ r ∧ Fills '\n' r ∧
    Ends '\n' post ∧ d' = { d with resources := some (d.resources.getD [] ++ [⟨r, utf8Length (pre ++ "- ")⟩]) } := by
  have hdash : ∀ {x : Text}, foldCase x = foldCase "- " ↔ x = "- " := foldCase_eq_iff fun c hc => by
    rcases List.mem_pair.1 hc with rfl | rfl <;> rfl
  rw [takes_rnm_onMatch defines_resource]
  simp only [takes_cat_cons, takes_cat_nil, takes_tls, hdash, takes_plus_class class_lineChar]
  have hnote : ∀ (r : Text) (d : MessageCapture), (if ("- " : Text) ++ r = [] then d else
      { d with resources := some (d.resources.getD [] ++
        [.ofInput (pre ++ (("- " ++ r) ++ post)).toArray (pre.length + 2) (("- " ++ r).length - 2)]) }) =
      { d with resources := some (d.resources.getD [] ++ [⟨r, utf8Length (pre ++ "- ")⟩]) } := by
    intro r d
    rw [if_neg (by simp)]
    exact congrArg (fun c => { d with resources := some (d.resources.getD [] ++ [c]) }) (window_capture_after pre "- " r post)
  constructor
  · rintro ⟨_, ⟨_, _, _, rfl, ⟨rfl, rfl⟩, r, _, _, rfl, ⟨hne, hr, hpost, rfl⟩, rfl, rfl⟩, rfl⟩
    exact ⟨r, by rw [List.append_nil], ⟨hne, hr⟩, hpost, by rw [List.append_nil]; exact hnote r _⟩
  · rintro ⟨r, rfl, ⟨hne, hr⟩, hpost, rfl⟩
    exact ⟨d, ⟨"- ", r, d, rfl, ⟨rfl, rfl⟩, r, [], d, by rw [List.append_nil], ⟨hne, hr, hpost, rfl⟩, rfl, rfl⟩,
      hnote r d⟩

theorem takes_resourceLine : messageLexicon.Takes (.cat [Rules.lf, .rnm "fresource"]) pre x post d d' ↔ ∃ r,
    x = resourceLine r ∧ Fills '\n' r ∧ Ends '\n' post ∧
      d' = { d with resources := some (d.resources.getD [] ++ [⟨r, utf8Length (pre ++ "\n- ")⟩]) } := by
  simp only [takes_cat_lf, takes_cat_cons (e := .rnm "fresource"), takes_cat_nil, takes_resource]
  constructor
  · rintro ⟨_, rfl, _, _, _, rfl, ⟨r, rfl, hr, hpost, rfl⟩, rfl, rfl⟩
    exact ⟨r, by rw [List.append_nil]; rfl, hr, hpost, by rw [List.append_assoc]; rfl⟩
  · rintro ⟨r, rfl, hr, hpost, rfl⟩
    exact ⟨"- " ++ r, rfl, "- " ++ r, [], _, by rw [List.append_nil], ⟨r, rfl, hr, hpost, rfl⟩, rfl,
      by rw [List.append_assoc]; rfl⟩

theorem ends_resourceLines : ∀ rs : List Text, Ends '\n' (rs.flatMap resourceLine)
  | [] => ends_nil _
  | _ :: _ => ends_of_head (by simp [resourceLine])

/-- **The resources at the end of a message,** noted after those noted so far. -/
theorem resources_of_many {e : Expr} (he : e = .cat [Rules.lf, .rnm "fresource"]) {max : Option Nat} {done : Nat}
    {xs : List Text} {b : Bool} (h : messageLexicon.Many e max done pre xs post d d' b) : post = [] →
    ∀ cs, d.resources = some cs → ∃ rs : List Text, xs = rs.map resourceLine ∧ (∀ r ∈ rs, Fills '\n' r) ∧
      d' = { d with resources := some (cs ++ Sheet.placed pre rs) } := by
  have hnone : ∀ {pre : Text} {d : MessageCapture} {cs}, d.resources = some cs →
      d = { d with resources := some (cs ++ Sheet.placed pre []) } := by
    rintro pre d cs hcs
    rw [Sheet.placed, List.append_nil, ← hcs]
  induction h with
  | atEnd => exact fun _ cs hcs => ⟨[], rfl, by simp, hnone hcs⟩
  | atMax => exact fun _ cs hcs => ⟨[], rfl, by simp, hnone hcs⟩
  | refused before => exact fun hpost => absurd hpost before
  | emptied before => exact fun hpost => absurd hpost before
  | more _ _ here _ ih =>
    intro hpost cs hcs
    rw [he] at here
    obtain ⟨r, rfl, hr, -, rfl⟩ := takes_resourceLine.1 here
    obtain ⟨rs, rfl, hrs, rfl⟩ := ih hpost _ rfl
    refine ⟨r :: rs, rfl, List.forall_mem_cons.2 ⟨hr, hrs⟩, ?_⟩
    simp [Sheet.placed, hcs]

theorem many_of_resources (max : Option Nat) (hmax : max = none) : ∀ (rs : List Text) (done : Nat) (pre : Text)
    (d : MessageCapture) (cs : List Capture), d.resources = some cs → (∀ r ∈ rs, Fills '\n' r) →
    messageLexicon.Many (.cat [Rules.lf, .rnm "fresource"]) max done pre (rs.map resourceLine) [] d
      { d with resources := some (cs ++ Sheet.placed pre rs) } false
  | [], done, pre, d, cs, hcs, _ => by
    rw [Sheet.placed, List.append_nil, ← hcs]
    exact .atEnd
  | r :: rs, done, pre, d, cs, hcs, hrs => by
    rw [List.forall_mem_cons] at hrs
    refine .more (by simp [hmax]) (by simp [resourceLine]) (takes_resourceLine.2 ⟨r, rfl, hrs.1, ?_, rfl⟩) ?_
    · rw [List.append_nil, ← List.flatMap_def]
      exact ends_resourceLines rs
    · have h := many_of_resources max hmax rs (done + 1) (pre ++ resourceLine r)
        { d with resources := some (d.resources.getD [] ++ [⟨r, utf8Length (pre ++ "\n- ")⟩]) } _ rfl hrs.2
      rw [hcs] at h ⊢
      simpa [Sheet.placed] using h

theorem takes_resources : messageLexicon.Takes (.rnm "fresources") pre x [] d d' ↔ ∃ rs : List Text,
    x = rs.flatMap resourceLine ∧ (∀ r ∈ rs, Fills '\n' r) ∧ d' = { d with resources := some (Sheet.placed pre rs) } := by
  rw [takes_rnm_onEntry defines_resources, Expr.star, takes_rep (by simp)]
  constructor
  · rintro ⟨xs, b, rfl, hmany, -⟩
    obtain ⟨rs, rfl, hrs, rfl⟩ := resources_of_many rfl hmany rfl [] rfl
    exact ⟨rs, List.flatMap_def.symm, hrs, rfl⟩
  · rintro ⟨rs, rfl, hrs, rfl⟩
    exact ⟨_, false, List.flatMap_def.symm, many_of_resources none rfl rs 0 pre _ [] rfl hrs, .inr (Nat.zero_le _)⟩

/-! ## The message as a whole -/

open RequiredLine (defines_leadRule defines_valueRule)

theorem not_refuses_requestId : ¬ messageLexicon.Refuses (.rnm "frequest-id") pre post d d' := by
  rw [refuses_rnm_onSuccess defines_requestId]
  exact fun h => unfailing_star h

theorem not_refuses_resources : ¬ messageLexicon.Refuses (.rnm "fresources") pre post d d' := by
  rw [refuses_rnm_onEntry defines_resources]
  exact fun h => unfailing_star h

/-- A field that may be absent, as it is noted. -/
theorem note_eq {v : Option Text} {n : Nat} {f : Field} {d₁ : MessageCapture} (habsent : v = none → d₁ = d)
    (hnew : d.note none f = d) (hpresent : ∀ t ∈ v, d₁ = d.note (some ⟨t, n⟩) f) :
    d₁ = d.note (v.map (⟨·, n⟩)) f := by
  cases v with
  | none => rw [habsent rfl, Option.map_none, hnew]
  | some t => exact hpresent t rfl

/-- A line that may be absent, whose field is noted as it is taken. -/
theorem takes_optional_noted {label field : Text} {v : Option Text} {f : Field} {P : Text → Prop}
    (hfield : ∀ {pre t post d}, P t → Ends '\n' post →
      messageLexicon.Takes (.rnm field) pre t post d (d.note (some ⟨t, utf8Length pre⟩) f))
    (hnew : d.note none f = d) (hv : ∀ t ∈ v, P t) (hends : Ends '\n' (x ++ post))
    (hlabel : ¬ labelled label [] <+: x ++ post) (h : messageLexicon.Takes (.cat es) (pre ++ optionalPart (labelled label) v)
      x post (d.note (v.map (⟨·, utf8Length (pre ++ labelled label [])⟩)) f) d') :
    messageLexicon.Takes (.cat (Rules.optionalLine label field :: es)) pre (optionalPart (labelled label) v ++ x) post d
      d' := by
  refine takes_optional_intro (fun t ht => ?_) (fun hv => by rw [hv]; exact hnew) hlabel h
  obtain rfl : v = some t := ht
  exact hfield (hv t rfl) hends

theorem takes_optional_resources {v : Option (List Text)} (hnew : d.resources = none)
    (hv : ∀ rs ∈ v, ∀ r ∈ rs, Fills '\n' r) :
    messageLexicon.Takes (.cat [Rules.optionalLine resourcesLabel "fresources"]) pre (resourcesPart v) [] d
      { d with resources := v.map (Sheet.placed (pre ++ labelled resourcesLabel [])) } := by
  cases v with
  | none =>
    rw [Option.map_none, ← hnew]
    have hlabel : ¬ labelled resourcesLabel [] <+: ([] ++ [] : Text) := fun h => by
      simp [labelled] at h
    exact takes_optional_none hlabel (takes_cat_nil.2 ⟨rfl, rfl⟩)
  | some rs =>
    rw [Sheet.resourcesPart_eq, ← List.append_nil (optionalPart _ _)]
    exact takes_optional_some (takes_resources.2 ⟨rs, rfl, hv rs rfl, rfl⟩) (takes_cat_nil.2 ⟨rfl, rfl⟩)

/-- **What the structural rules take is the text of a sheet,** and its fields are what has been noted. -/
theorem cut_of_takes (h : messageLexicon.Takes (.rnm Rules.firstPass) [] x [] .empty d') :
    ∃ F : Sheet, F.Cut ∧ x = F.text ∧ d' = F.fields.noted := by
  rw [takes_rnm defines_firstPass, Rules.messageBody] at h
  obtain ⟨scheme, _, hx, hscheme, hno, h₁⟩ := takes_schemePart.1 h
  obtain ⟨domain, _, rfl, hdomain, -, h₂⟩ := (takes_cat_slot defines_domain class_domain).1 h₁
  obtain ⟨_, rfl, h₃⟩ := takes_cat_tbs.1 h₂
  obtain ⟨_, rfl, h₄⟩ := takes_cat_lf.1 h₃
  obtain ⟨address, _, rfl, haddress, h₅⟩ := (takes_cat_line defines_address).1 h₄
  obtain ⟨_, _, _, rfl, hst, h₆⟩ := takes_cat_cons.1 h₅
  obtain ⟨statement, rfl, hstatement, -, rfl⟩ := takes_statement.1 hst
  obtain ⟨uri, _, rfl, huri, h₇⟩ := (takes_required_line (defines_leadRule .uri) (defines_valueRule .uri)).1 h₆
  obtain ⟨version, _, rfl, hversion, h₈⟩ := (takes_required_line (defines_leadRule .version) (defines_valueRule .version)).1 h₇
  obtain ⟨chainId, _, rfl, hchainId, h₉⟩ := (takes_required_line (defines_leadRule .chainId) (defines_valueRule .chainId)).1 h₈
  obtain ⟨nonce, _, rfl, hnonce, h₁₀⟩ := (takes_required_line (defines_leadRule .nonce) (defines_valueRule .nonce)).1 h₉
  obtain ⟨issuedAt, _, rfl, hissuedAt, -, h₁₁⟩ :=
    (takes_required (defines_leadRule .issuedAt) (defines_valueRule .issuedAt)).1 h₁₀
  obtain ⟨expirationTime, _, d₁, rfl, hexpiration, hexpiration₀, h₁₂⟩ :=
    takes_optional_elim (fun h => ((refuses_slot defines_expirationTime class_lineChar).1 h).2) h₁₁
  obtain ⟨notBefore, _, d₂, rfl, hnotBefore, hnotBefore₀, h₁₃⟩ :=
    takes_optional_elim (fun h => ((refuses_slot defines_notBefore class_lineChar).1 h).2) h₁₂
  obtain ⟨requestId, _, d₃, rfl, hrequestId, hrequestId₀, h₁₄⟩ :=
    takes_optional_elim (fun h => absurd h not_refuses_requestId) h₁₃
  obtain ⟨lines, _, d₄, rfl, hresources, hresources₀, h₁₅⟩ :=
    takes_optional_elim (fun h => absurd h not_refuses_resources) h₁₄
  obtain ⟨rfl, rfl⟩ := takes_cat_nil.1 h₁₅
  obtain rfl := note_eq (f := .expirationTime) hexpiration₀ rfl fun t ht =>
    ((takes_slot defines_expirationTime class_lineChar).1 (hexpiration t ht)).2.2
  obtain rfl := note_eq (f := .notBefore) hnotBefore₀ rfl fun t ht =>
    ((takes_slot defines_notBefore class_lineChar).1 (hnotBefore t ht)).2.2
  obtain rfl := note_eq (f := .requestId) hrequestId₀ rfl fun t ht => (takes_requestId.1 (hrequestId t ht)).2.2
  obtain ⟨resources, hlines, hfilled, hd⟩ : ∃ resources : Option (List Text),
      optionalPart (labelled resourcesLabel) lines = resourcesPart resources ∧
      (∀ rs ∈ resources, ∀ r ∈ rs, Fills '\n' r) ∧
      d' = (Sheet.mk scheme domain address statement uri version chainId nonce issuedAt expirationTime notBefore requestId
        resources).fields.noted := by
    cases lines with
    | none => exact ⟨none, rfl, by simp, hresources₀ rfl⟩
    | some t =>
      obtain ⟨rs, rfl, hrs, rfl⟩ := takes_resources.1 (hresources t rfl)
      refine ⟨some rs, by rw [Sheet.resourcesPart_eq]; rfl, by simpa using hrs, rfl⟩
  have htext : x = (Sheet.mk scheme domain address statement uri version chainId nonce issuedAt expirationTime notBefore
      requestId resources).text := by
    rw [hx, Sheet.text_eq, List.append_nil, ← hlines]
    rfl
  refine ⟨_, ⟨hscheme, ?_, hdomain, haddress, hstatement, huri, hversion, hchainId, hnonce, hissuedAt, ?_, ?_, ?_, hfilled⟩,
    htext, hd⟩
  · rw [← htext, ← List.append_nil x]
    exact hno
  · exact fun t ht => ((takes_slot defines_expirationTime class_lineChar).1 (hexpiration t ht)).1
  · exact fun t ht => ((takes_slot defines_notBefore class_lineChar).1 (hnotBefore t ht)).1
  · exact fun t ht => (takes_requestId.1 (hrequestId t ht)).1

theorem ends_invitation (s : Text) : Ends ' ' (invitation ++ s) := by
  have hhead : invitation.head? = some ' ' := by decide
  refine ends_of_head fun c hc => ?_
  rw [List.head?_append, hhead] at hc
  exact (Option.some.inj hc).symm

namespace Sheet

/-- A sheet up to the line feed before its first required line. -/
def opening (F : Sheet) : Text := F.uptoAddress ++ F.address ++ "\n" ++ "\n" ++ optionalPart (· ++ "\n") F.statement

theorem opening_eq (F : Sheet) : F.opening ++ "\n" = F.uptoAddress ++ F.address ++ "\n" ++ F.statementPart := by
  simp only [opening, statementPart, List.append_assoc]

theorem text_opening (F : Sheet) : F.text = (F.opening ++ "\n") ++ (RequiredLine.uri.lead ++ (F.uri ++ ("\n" ++
    (RequiredLine.version.lead ++ (F.version ++ ("\n" ++ (RequiredLine.chainId.lead ++ (F.chainId ++ ("\n" ++
    (RequiredLine.nonce.lead ++ (F.nonce ++ ("\n" ++ (RequiredLine.issuedAt.lead ++ (F.issuedAt ++ (F.expirationPart ++
    (F.notBeforePart ++ (F.requestIdPart ++ resourcesPart F.resources))))))))))))))))) := by
  simp only [opening_eq, text_eq, uptoAddress, List.append_assoc]

end Sheet

theorem takes_opening {F : Sheet} (h : F.Cut) (hno : F.scheme = none → ¬ Schemed (F.opening ++ "\n" ++ post))
    (hst : F.statement = none → post.head? ≠ some '\n') :
    messageLexicon.Takes (.cat Rules.opening) [] (F.opening ++ "\n") post .empty
      { MessageCapture.empty with
        scheme := F.fields.scheme, domain := F.fields.domain, address := F.fields.address
        statement := F.fields.statement } := by
  have hopening : F.opening ++ "\n" = F.schemePart ++ (F.domain ++ (invitation ++ ("\n" ++ (F.address ++ ("\n" ++
      F.statementPart))))) := by
    simp [Sheet.opening, Sheet.uptoAddress, Sheet.statementPart]
  rw [hopening] at hno ⊢
  refine takes_schemePart.2 ⟨F.scheme, _, rfl, h.scheme, hno, ?_⟩
  refine (takes_cat_slot defines_domain class_domain).2 ⟨F.domain, _, rfl, h.domain, ?_, ?_⟩
  · rw [List.append_assoc]
    exact ends_invitation _
  refine takes_cat_tbs.2 ⟨_, rfl, takes_cat_lf.2 ⟨_, rfl, ?_⟩⟩
  refine (takes_cat_line defines_address).2 ⟨F.address, _, rfl, h.address, ?_⟩
  exact takes_cat_one.2 (takes_statement.2 ⟨F.statement, rfl, h.statement, hst, rfl⟩)

/-- The structural rules take the text of a sheet that can be cut. -/
theorem takes_of_cut {F : Sheet} (h : F.Cut) :
    messageLexicon.Takes (.rnm Rules.firstPass) [] F.text [] .empty F.fields.noted := by
  have hno := h.noScheme
  rw [F.text_opening] at hno ⊢
  rw [takes_rnm defines_firstPass, Rules.messageBody_eq]
  refine takes_cat_append.2 ⟨_, _, _, rfl, takes_opening h (by rwa [List.append_nil]) fun _ => ?_, ?_⟩
  · rw [List.append_assoc, Sheet.head_lead_uri]
    decide
  rw [F.opening_eq]
  refine (takes_required_line (defines_leadRule .uri) (defines_valueRule .uri)).2 ⟨F.uri, _, rfl, h.uri, ?_⟩
  refine (takes_required_line (defines_leadRule .version) (defines_valueRule .version)).2 ⟨F.version, _, rfl, h.version, ?_⟩
  refine (takes_required_line (defines_leadRule .chainId) (defines_valueRule .chainId)).2 ⟨F.chainId, _, rfl, h.chainId, ?_⟩
  refine (takes_required_line (defines_leadRule .nonce) (defines_valueRule .nonce)).2 ⟨F.nonce, _, rfl, h.nonce, ?_⟩
  refine (takes_required (defines_leadRule .issuedAt) (defines_valueRule .issuedAt)).2 ⟨F.issuedAt, _, rfl, h.issuedAt, ?_, ?_⟩
  · rw [List.append_nil]
    exact ends_of_head (Sheet.head_append Sheet.head_optionalPart F.head_notBefore)
  refine takes_optional_noted (f := .expirationTime)
    (fun ht hpost => (takes_slot defines_expirationTime class_lineChar).2 ⟨ht, hpost, rfl⟩) rfl h.expirationTime ?_ ?_ ?_
  · rw [List.append_nil]
    exact ends_of_head F.head_notBefore
  · rw [List.append_nil]
    exact F.not_expiration
  refine takes_optional_noted (f := .notBefore)
    (fun ht hpost => (takes_slot defines_notBefore class_lineChar).2 ⟨ht, hpost, rfl⟩) rfl h.notBefore ?_ ?_ ?_
  · rw [List.append_nil]
    exact ends_of_head F.head_requestId
  · rw [List.append_nil]
    exact F.not_notBefore
  refine takes_optional_noted (f := .requestId) (fun ht hpost => takes_requestId.2 ⟨ht, hpost, rfl⟩) rfl h.requestId ?_ ?_ ?_
  · rw [List.append_nil]
    exact ends_of_head F.head_resources
  · rw [List.append_nil]
    exact F.not_requestId
  exact takes_optional_resources rfl h.resources

theorem firstPass_bundled : Rules.firstPass ∈ bundledNames := List.mem_cons_self

theorem ofParsed_eq_ok {input : Array Char} {parsed : Parsed MessageCapture Unit} {f : Fields} :
    Fields.ofParsed input parsed = .ok f ↔
      (∃ report, parsed.result = .ok report ∧ report.success = true) ∧ parsed.data = f.noted := by
  unfold Fields.ofParsed
  constructor
  · intro h
    split at h
    · cases h
    · cases h
    rename_i report hresult hmissing
    split at h
    · rename_i fields hsuccess hfields
      cases h
      exact ⟨⟨report, hresult, hsuccess⟩, (fields?_eq_some hmissing).1 hfields⟩
    · cases h
  · rintro ⟨⟨report, hresult, hsuccess⟩, hdata⟩
    have hmissing : f.noted.missing = none := rfl
    simp only [hresult, hdata, hmissing, hsuccess, fields?_noted]

/-- **The texts that are cut into fields** are those of sheets that can be cut, and the fields are theirs. -/
theorem ofText_eq_ok {text : Text} {f : Fields} : Fields.ofText text = .ok f ↔
    ∃ F : Sheet, F.Cut ∧ text = F.text ∧ f = F.fields := by
  rw [Fields.ofText, ofParsed_eq_ok]
  constructor
  · rintro ⟨⟨report, hresult, hsuccess⟩, hdata⟩
    obtain ⟨F, hcut, htext, hnoted⟩ := cut_of_takes (takes_of_parse messageMatcher_bundles.1 hresult hsuccess)
    rw [hdata] at hnoted
    exact ⟨F, hcut, htext, noted_injective hnoted⟩
  · rintro ⟨F, hcut, htext, rfl⟩
    have htakes := takes_of_cut hcut
    rw [← htext] at htakes
    obtain ⟨report, hresult, hsuccess, hdata⟩ := parse_of_takes messageMatcher_bundles.1 firstPass_bundled htakes
    exact ⟨⟨report, hresult, hsuccess⟩, hdata⟩

end SignIn
