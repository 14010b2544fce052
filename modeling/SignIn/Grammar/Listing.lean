import SignIn.Grammar.Basic
import SignIn.Text.Escaped
import SignIn.Text.Styled
/-!
# Listings of a grammar

A block for each rule: its name, then its opcodes, one to a line, with their indices and operands.
Blocks are apart by an empty line, and the terminals follow the rules.  Indices are as wide as the
last index of the rule.
-/
namespace SignIn

/-- **The width of the indices below a count** is that of the greatest of them. -/
def indexWidth (count : Nat) : Nat := (decimal (count - 1)).length

/-- An index of another opcode, filled with zeros. -/
def operandIndex (width i : Nat) : Text := alignRight '0' width (decimal i)

/-- The upper bound of a repetition. -/
def boundText : Option Nat → Text
  | some max => decimal max
  | none => "inf"

/-- The arrow to an operand. -/
def operandArrow (width child : Nat) : Styled := paint .faint ("-> " ++ operandIndex width child)

/-- **The operands of an opcode,** each after a blank. -/
def Grammar.operands (g : Grammar) (width : Nat) : Opcode → Styled
  | .alt children | .cat children =>
    plain " " ++ paint .faint (List.intercalate [' '] (children.map (operandIndex width)))
  | .rep min max child =>
    plain (" " ++ decimal min ++ "*" ++ boundText max ++ " ") ++ operandArrow width child
  | .rnm id => plain " " ++ paint .name (g.ruleName id)
  | .udt id => plain " " ++ paint .name (g.udtName id)
  | .trg min max =>
    plain (" %d" ++ decimal min) ++ if min = max then [] else plain ("-" ++ decimal max)
  | .tbs literal | .tls literal => plain " " ++ paint .hit ("\"" ++ escaped literal ++ "\"")
  | .and child | .not child => plain " " ++ operandArrow width child

/-- One opcode on its line. -/
def Grammar.opcodeLine (g : Grammar) (width i : Nat) (op : Opcode) : Styled :=
  plain "  " ++ paint .faint (alignRight ' ' width (decimal i)) ++
    plain (" " ++ op.operator.mnemonic) ++ g.operands width op

/-- **The block of a rule.** -/
def Grammar.ruleListing (g : Grammar) (r : Rule) : Styled :=
  let width := indexWidth r.opcodes.size
  Styled.lines <| (paint .name r.name ++ plain ":") ::
    r.opcodes.toList.zipIdx.map fun p => g.opcodeLine width p.2 p.1

/-- The line of a terminal. -/
def Udt.listing (u : Udt) : Styled :=
  paint .faint "udt" ++ plain " " ++ paint .name u.name ++
    plain (if u.acceptsEmpty then " (empty)" else "")

/-- **The whole grammar,** rules first. -/
def Grammar.listing (g : Grammar) : Styled :=
  List.intercalate (plain "\n") (g.rules.toList.map g.ruleListing) ++
    if g.udts.isEmpty then []
    else plain "\n" ++ Styled.lines (g.udts.toList.map Udt.listing)

end SignIn
