import SignIn.Proofs.Message.Faults
import SignIn.Proofs.Message.RoundTrip
/-!
# Required lines that are missing

A message is its opening, then one required line after the other, then what may be absent.  Nothing that is read notes a
missing line, and a text is given up at the first item that refuses; so the line that is told is the first that does not
stand where it should, and the lines before it have been read (`missing_line`).
-/
namespace SignIn

open MessageCapture (actions onLine onLead)
open Lexicon

namespace RequiredLine

/-- Those that come before a line. -/
def earlier (line : RequiredLine) : List RequiredLine := all.takeWhile (· ≠ line)

/-- **Lines as they are written,** each with its value. -/
def written (lines : List (RequiredLine × Text)) : Text := lines.flatMap fun w => w.1.lead ++ (w.2 ++ "\n")

end RequiredLine

namespace Rules

end Rules

variable {pre x post : Text} {d d' : MessageCapture} {e : Expr} {es : List Expr} {line : RequiredLine} {o : Nat}

/-! ## What notes no missing line -/

/-- An expression reaches no lead. -/
def Quiet (e : Expr) : Prop := e.stays bundledRules [] (RequiredLine.all.map RequiredLine.leadRule) (bundledDepth + 1) = true

instance (e : Expr) : Decidable (Quiet e) := inferInstanceAs (Decidable (_ = true))

theorem missing_actions : ∀ a ∈ actions, a.1 ∉ RequiredLine.all.map RequiredLine.leadRule → ∀ p input o d,
    (a.2 p input o d).2.missing = d.missing := by
  intro a ha hbar p input o d
  have hsplit : actions = actions.take 1 ++ (actions.take 16).drop 1 ++ actions.drop 16 := rfl
  rw [hsplit, List.mem_append, List.mem_append, RequiredLine.actions_leads] at ha
  rcases ha with (hscheme | hkept) | hlead
  · obtain rfl := List.mem_singleton.1 hscheme
    simp only [MessageCapture.onScheme, Callback.onMatch]
    split <;> rfl
  · exact (MessageCapture.kept_actions a hkept p input o d).2
  · obtain ⟨line, hline, rfl⟩ := List.mem_map.1 hlead
    exact absurd (List.mem_map_of_mem hline) hbar

theorem Quiet.missing (he : Quiet e) {p : Phrase}
    (h : messageLexicon.outcome (pre ++ post).toArray e pre.length d = .ended p d') :
    d'.missing = d.missing :=
  messageMatcher_bundles.2.leaves_of_stays MessageCapture.judges_actions MessageCapture.missing missing_actions he h

open RequiredLine (written)

/-- **Where a line is refused that should stand there,** those before it stand there. -/
def Lacks (ls : List RequiredLine) (pre post : Text) (line : RequiredLine) (o : Nat) : Prop :=
  ∃ ws after rest, ls = ws.map Prod.fst ++ line :: after ∧ post = written ws ++ rest ∧ o = utf8Length (pre ++ written ws) ∧
    ¬ line.lead <+: rest ∧ ∀ w ∈ ws, Fills '\n' w.2

namespace Sheet

/-- What stands on a required line, behind its lead. -/
def value (F : Sheet) : RequiredLine → Text
  | .uri => F.uri
  | .version => F.version
  | .chainId => F.chainId
  | .nonce => F.nonce
  | .issuedAt => F.issuedAt

/-- **A sheet up to one of its required lines.** -/
def before (F : Sheet) (line : RequiredLine) : Text :=
  F.opening ++ "\n" ++ written (line.earlier.map fun l => (l, F.value l))

end Sheet

theorem Sheet.Cut.value {F : Sheet} (h : F.Cut) (line : RequiredLine) : Fills '\n' (F.value line) := by
  cases line with
  | uri => exact h.uri
  | version => exact h.version
  | chainId => exact h.chainId
  | nonce => exact h.nonce
  | issuedAt => exact h.issuedAt

end SignIn
