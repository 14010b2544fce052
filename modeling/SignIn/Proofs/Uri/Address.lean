import SignIn.Proofs.Expr.Ensures
import SignIn.Proofs.Expr.Stops
import SignIn.Proofs.Uri.Grammar
/-!
# Hosts in brackets

An IPv6 address is judged by counting its groups, and the count begins anew with each form of an address.  So what its
rule accepts does not depend on what was noted before, nor does it matter whether the input ends behind it or goes on
with a bracket (`recognizes_ipv6Address`): the rule recognizes in a host what it accepts by itself.
-/
namespace SignIn

open Lexicon

/-! ## The rules of URIs and their callbacks -/

/-- The rules of URIs that have no callback. -/
def unnotedNames : List String :=
  ["hier-part", "authority", "userinfo", "IPvFuture", "IPv6address", "reg-name", "reg-name-char", "segment", "segment-nz",
    "pchar", "pct-encoded"]

theorem unnotedNames_unnoted : ∀ name ∈ unnotedNames, (name : Text) ∉ UriCapture.actions.map (·.1) := by decide

theorem defines_unnoted {name : String} {body : Expr} (h : ((name : Text), body) ∈ Rules.uri)
    (hname : name ∈ unnotedNames) : fieldLexicon.Defines name body none :=
  fieldMatcher_bundles.2.plain (List.mem_append_right _ h) (unnotedNames_unnoted name hname)

theorem defines_noted {name : Text} {body : Expr} {f : Callback UriCapture} (h : (name, body) ∈ Rules.uri)
    (hf : (name, f) ∈ UriCapture.actions) : fieldLexicon.Defines name body (some f) :=
  fieldMatcher_bundles.2.bound (List.mem_append_right _ h) hf

namespace UriCapture

/-- **Two captures count alike:** the groups, and whether an IPv4 address was read. -/
def SameCount (c d : UriCapture) : Prop := (c.groups, c.ipv4) = (d.groups, d.ipv4)

/-- Two captures count alike, the octet begun too. -/
def SameOctet (c d : UriCapture) : Prop := (c.groups, c.ipv4, c.octet) = (d.groups, d.ipv4, d.octet)

theorem equivalence_sameCount : Equivalence SameCount := ⟨fun _ => rfl, Eq.symm, Eq.trans⟩

theorem equivalence_sameOctet : Equivalence SameOctet := ⟨fun _ => rfl, Eq.symm, Eq.trans⟩

variable {c d : UriCapture}

theorem sameCount_iff : SameCount c d ↔ c.groups = d.groups ∧ c.ipv4 = d.ipv4 := Prod.mk_inj

theorem sameOctet_iff : SameOctet c d ↔ SameCount c d ∧ c.octet = d.octet := by
  simp [SameOctet, SameCount, and_assoc]

theorem leads_onGroup : onGroup.Leads SameCount SameCount := by
  refine Callback.leads_onMatch fun hd _ _ _ _ _ _ => ?_
  rw [sameCount_iff] at hd ⊢
  exact ⟨congrArg (· + 1) hd.1, hd.2⟩

theorem leads_onIpv4 : onIpv4.Leads SameCount SameCount := by
  refine Callback.leads_onMatch fun hd _ _ _ _ _ _ => ?_
  rw [sameCount_iff] at hd ⊢
  exact ⟨hd.1, rfl⟩

/-- A digit adds the same to octets that are the same: it is the first character of its match. -/
theorem leads_onOctetDigit : onOctetDigit.Leads SameOctet SameOctet := by
  refine Callback.leads_onMatch fun hd x pre pre' rest rest' hx => ?_
  have hfirst : ∀ pre rest : Text, phraseText (pre ++ (x ++ rest)).toArray pre.length 1 = x.take 1 := by
    intro pre rest
    have hlen := List.length_pos_of_ne_nil hx
    rw [phraseText_eq, List.toList_toArray, List.drop_left, List.take_append_of_le_length hlen]
  rw [sameOctet_iff] at hd ⊢
  refine ⟨hd.1, ?_⟩
  rw [hfirst, hfirst, hd.2]

theorem leads_onOctet : onOctet.Leads SameCount SameOctet := by
  refine Callback.leads_judging (fun hd => sameOctet_iff.2 ⟨hd, rfl⟩) (fun hd => ?_) (fun hd => (sameOctet_iff.1 hd).1)
    fun hd => (sameOctet_iff.1 hd).1
  rw [(sameOctet_iff.1 hd).2]

/-- **A form of an address begins to count anew,** from whatever was noted before. -/
theorem leads_newAddress {holds : UriCapture → Bool} (hholds : ∀ {c d}, SameCount c d → holds c = holds d) :
    (Callback.judging newAddress holds).Leads (fun _ _ => True) SameCount :=
  Callback.leads_judging (fun _ => rfl) hholds (fun _ => trivial) fun _ => trivial

theorem fullGroups_eq (h : SameCount c d) : c.fullGroups = d.fullGroups := by
  rw [fullGroups, fullGroups, (sameCount_iff.1 h).2]

theorem leads_onAllGroups : onAllGroups.Leads (fun _ _ => True) SameCount :=
  leads_newAddress fun hd => by rw [fullGroups_eq hd, (sameCount_iff.1 hd).1]

theorem leads_onSomeGroups : onSomeGroups.Leads (fun _ _ => True) SameCount :=
  leads_newAddress fun hd => by rw [fullGroups_eq hd, (sameCount_iff.1 hd).1]

end UriCapture

open UriCapture

/-! ## An IPv6 address stops at a bracket -/

theorem moves_of_atLeast {D : Type} {l : Lexicon D} {e : Expr} (h : 1 ≤ e.atLeast) : l.Moves e := fun htakes =>
  absurd (Nat.le_trans h (atLeast_le_of_takes htakes)) (by simp)

/-- A range without the bracket. -/
theorem stops_trg {R : UriCapture → UriCapture → Prop} (hR : Equivalence R) {lo hi : Nat} (h : hi < 93) :
    fieldLexicon.Stops R "]" (.trg lo hi) := by
  refine (class_trg lo hi).token.stops hR (within_oneOf fun c hc => ?_) opens_oneOf.nil_notMem
  simp [← Char.toNat_inj]
  omega

theorem moves_hexDigit : fieldLexicon.Moves Rules.hexDigit := class_hexDigit.token.moves opens_oneOf.nil_notMem

theorem stops_hexDigits : fieldLexicon.Stops SameCount "]" (.rep 1 (some 4) Rules.hexDigit) := by
  have hdigit : fieldLexicon.Stops SameCount "]" Rules.hexDigit := by
    refine class_hexDigit.token.stops equivalence_sameCount (within_oneOf fun c hc => ?_) opens_oneOf.nil_notMem
    rw [isHexDigit_iff] at hc
    simp [← Char.toNat_inj]
    omega
  exact hdigit.rep equivalence_sameCount moves_hexDigit (by simp)

/-- The rules of a 16-bit group count it. -/
theorem stops_group {name : Text} {body : Expr} (hrule : (name, body) ∈ Rules.uri) (hnoted : (name, onGroup) ∈ actions)
    (hbody : fieldLexicon.Stops SameCount "]" body) : fieldLexicon.Stops SameCount "]" (.rnm name) :=
  hbody.rnm_leads (defines_noted hrule hnoted) leads_onGroup

theorem stops_octet : fieldLexicon.Stops SameCount "]" (.rnm "dec-octet") := by
  have hrange : fieldLexicon.Stops SameOctet "]" Rules.digit := stops_trg equivalence_sameOctet (by decide)
  have hdigit : fieldLexicon.Stops SameOctet "]" (.rnm "dec-digit") :=
    hrange.rnm_leads (defines_noted (uri_rule "dec-digit" 21 rfl) (by simp [actions])) leads_onOctetDigit
  have hmoves : fieldLexicon.Moves (.rnm "dec-digit") :=
    Moves.rnm judging_fields (List.mem_append_right _ (uri_rule "dec-digit" 21 rfl)) (moves_of_atLeast (by decide))
  exact (hdigit.rep equivalence_sameOctet hmoves (by simp)).rnm_leads
    (defines_noted (uri_rule "dec-octet" 20 rfl) (by simp [actions])) leads_onOctet

theorem stops_dot : fieldLexicon.Stops SameCount "]" (.tbs ".") :=
  (token_tbs ".").stops equivalence_sameCount (within_word (by simp)) (by simp [mem_word])

theorem stops_ipv4 : fieldLexicon.Stops SameCount "]" (.rnm "IPv4address") := by
  have hR := equivalence_sameCount
  have hfourth := stops_cat_cons hR stops_octet (stops_cat_nil hR)
  have hthird := stops_cat_cons hR stops_octet (stops_cat_cons hR stops_dot hfourth)
  have hsecond := stops_cat_cons hR stops_octet (stops_cat_cons hR stops_dot hthird)
  have hbody := stops_cat_cons hR stops_octet (stops_cat_cons hR stops_dot hsecond)
  exact hbody.rnm_leads (defines_noted (uri_rule "IPv4address" 19 rfl) (by simp [actions])) leads_onIpv4

theorem moves_ipv4 : fieldLexicon.Moves (.rnm "IPv4address") :=
  Moves.rnm judging_fields (List.mem_append_right _ (uri_rule "IPv4address" 19 rfl)) (moves_of_atLeast (by decide))

/-- Groups of which none begins an IPv4 address, and then one or none. -/
theorem stops_groups : fieldLexicon.Stops SameCount "]" (.cat [Rules.groups, Rules.ipv4Tail]) := by
  have hR := equivalence_sameCount
  have hcolon : fieldLexicon.Stops SameCount "]" (.ch 58) := stops_trg hR (by decide)
  have hnodot : fieldLexicon.Stops SameCount "]" (.not (.ch 46)) := Stops.not (stops_trg hR (by decide))
  have hnextRule : (("h16cn" : Text), Expr.cat [.ch 58, .rep 1 (some 4) Rules.hexDigit, .not (.ch 46)]) ∈ Rules.uri :=
    uri_rule _ 18 rfl
  have hdigits := stops_cat_cons hR stops_hexDigits (stops_cat_cons hR hnodot (stops_cat_nil hR))
  have hfirst := stops_group (uri_rule "h16n" 17 rfl) (by simp [actions]) hdigits
  have hnext := stops_group hnextRule (by simp [actions]) (stops_cat_cons hR hcolon hdigits)
  have hmore : fieldLexicon.Stops SameCount "]" (.star (.rnm "h16cn")) :=
    hnext.rep hR (Moves.rnm judging_fields (List.mem_append_right _ hnextRule) (moves_of_atLeast (by decide))) (by simp)
  have hgroups : fieldLexicon.Stops SameCount "]" Rules.groups :=
    stops_cat_cons hR hfirst (stops_cat_cons hR hmore (stops_cat_nil hR))
  have haddress := stops_cat_cons hR hcolon (stops_cat_cons hR stops_ipv4 (stops_cat_nil hR))
  have htail : fieldLexicon.Stops SameCount "]" Rules.ipv4Tail :=
    haddress.rep hR (moves_of_atLeast (by decide)) (by simp)
  exact stops_cat_cons hR hgroups (stops_cat_cons hR htail (stops_cat_nil hR))

/-- The groups before a double colon. -/
theorem stops_before : fieldLexicon.Stops SameCount "]" (.opt (.cat [.rnm "h16", .star (.rnm "h16c")])) := by
  have hR := equivalence_sameCount
  have hcolon : fieldLexicon.Stops SameCount "]" (.ch 58) := stops_trg hR (by decide)
  have hnextRule : (("h16c" : Text), Expr.cat [.ch 58, .rep 1 (some 4) Rules.hexDigit]) ∈ Rules.uri := uri_rule _ 16 rfl
  have hfirst := stops_group (uri_rule "h16" 15 rfl) (by simp [actions]) stops_hexDigits
  have hdigits := stops_cat_cons hR hcolon (stops_cat_cons hR stops_hexDigits (stops_cat_nil hR))
  have hnext := stops_group hnextRule (by simp [actions]) hdigits
  have hmoves : fieldLexicon.Moves (.rnm "h16") :=
    Moves.rnm judging_fields (List.mem_append_right _ (uri_rule "h16" 15 rfl)) (moves_hexDigit.plus (by simp))
  have hmore : fieldLexicon.Stops SameCount "]" (.star (.rnm "h16c")) :=
    hnext.rep hR (Moves.rnm judging_fields (List.mem_append_right _ hnextRule) (moves_of_atLeast (by decide))) (by simp)
  exact (stops_cat_cons hR hfirst (stops_cat_cons hR hmore (stops_cat_nil hR))).rep hR hmoves.cat (by simp)

/-- **An IPv6 address stops at a bracket,** whatever was noted before it. -/
theorem stops_ipv6 : fieldLexicon.Stops (fun _ _ => True) "]" (.rnm "IPv6address") := by
  have hR := equivalence_sameCount
  have hall : fieldLexicon.Stops (fun _ _ => True) "]" (.rnm "nodcolon") :=
    stops_groups.rnm_leads (defines_noted (uri_rule "nodcolon" 13 rfl) (by simp [actions])) leads_onAllGroups
  have hcolons : fieldLexicon.Stops SameCount "]" (.tbs "::") :=
    (token_tbs "::").stops hR (within_word (by simp)) (by simp [mem_word])
  have hlast : fieldLexicon.Stops SameCount "]" (.opt (.rnm "IPv4address")) := stops_ipv4.rep hR moves_ipv4 (by simp)
  have hafter : fieldLexicon.Stops SameCount "]" (.alt [.cat [Rules.groups, Rules.ipv4Tail], .opt (.rnm "IPv4address")]) :=
    stops_alt_cons hR stops_groups (stops_alt_cons hR hlast (stops_alt_nil hR))
  have hbody := stops_cat_cons hR stops_before (stops_cat_cons hR hcolons (stops_cat_cons hR hafter (stops_cat_nil hR)))
  have hsome : fieldLexicon.Stops (fun _ _ => True) "]" (.rnm "dcolon") :=
    hbody.rnm_leads (defines_noted (uri_rule "dcolon" 14 rfl) (by simp [actions])) leads_onSomeGroups
  have hplain := @defines_unnoted "IPv6address" _ (uri_rule "IPv6address" 12 rfl) (by simp [unnotedNames])
  have hany : Equivalence fun _ _ : UriCapture => True := ⟨fun _ => trivial, fun _ => trivial, fun _ _ => trivial⟩
  exact (stops_alt_cons hany hall (stops_alt_cons hany hsome (stops_alt_nil hany))).rnm hplain

/-- **In brackets an IPv6 address is what its rule accepts by itself.** -/
theorem recognizes_ipv6Address : fieldLexicon.Recognizes (.rnm "IPv6address") Production.ipv6Address (HeadIn "]") := by
  have hname : ("IPv6address" : Text) ∈ bundledNames := uri_name "IPv6address" 12 rfl
  intro pre x post d hpost
  show _ ↔ matchesRule "IPv6address" x = .ok true
  rw [matchesRule_iff hname]
  constructor
  · rintro ⟨d', h⟩
    obtain ⟨z', d₂', hx, -, h, -⟩ :=
      stops_ipv6.takes (q := []) hpost headIn_nil (trivial : (fun _ _ : UriCapture => True) d .empty) rfl h
    obtain rfl : z' = [] := by simpa using hx
    exact ⟨d₂', h⟩
  · rintro ⟨d', h⟩
    obtain ⟨z', d₂', hx, -, h, -⟩ :=
      stops_ipv6.takes (q := pre) (z := x) headIn_nil hpost (trivial : (fun _ _ : UriCapture => True) .empty d) rfl h
    obtain rfl : z' = [] := by simpa using hx
    exact ⟨d₂', h⟩

end SignIn
