import SignIn.Grammar.Listing
import SignIn.Match.Event
/-!
# Traces

A trace is a line for each operator entered and a line for each one left, indented by the operators
that are open, with every fifth column ruled.  A line on the way down shows the input ahead, up to a
limit; a line on the way up shows the outcome and, of a match, the phrase.

Controls in the input are escaped and literals are escaped whole, so an event is one line.
-/
namespace SignIn

/-- **A trace is its lines so far,** with what the next line needs to know. -/
structure Trace where
  input : Array Char
  /-- how many operators are open -/
  depth : Nat
  /-- the latest line first -/
  newest : List Styled

namespace Trace

/-- The trace of no match. -/
def empty : Trace := ⟨#[], 0, []⟩

/-- The lines in the order of the events. -/
def lines (t : Trace) : List Styled := t.newest.reverse

/-- The lines as output. -/
def listing (t : Trace) : Styled := Styled.lines t.lines

/-- How many characters of the input ahead a line shows unless told otherwise. -/
def defaultPreview : Nat := 100

/-- How many characters of a literal the name of an operator shows. -/
def literalLimit : Nat := 10

/-- **The indentation:** a column for each open operator, every fifth one ruled. -/
def indentation (depth : Nat) : Text :=
  (List.range depth).map fun i => if (i + 1) % 5 = 0 then '|' else '.'

/-- A literal in the name of an operator, cut at the limit. -/
def literalLabel (literal : Text) : Text :=
  if literalLimit < literal.length then escaped (literal.take literalLimit) ++ "..."
  else escaped literal

/-- An operator as a line names it. -/
def label (g : Grammar) : Opcode → Styled
  | .rep min max _ => plain ("REP(" ++ decimal min ++ "," ++ boundText max ++ ")")
  | .rnm id => plain "RNM(" ++ paint .name (g.ruleName id) ++ plain ")"
  | .udt id => plain "UDT(" ++ paint .name (g.udtName id) ++ plain ")"
  | .trg min max => plain ("TRG(" ++ decimal min ++ "," ++ decimal max ++ ")")
  | .tbs literal => plain ("TBS(" ++ literalLabel literal ++ ")")
  | .tls literal => plain ("TLS(" ++ literalLabel literal ++ ")")
  | op => plain op.operator.mnemonic

/-- **The input ahead,** cut at the limit. -/
def preview (limit : Nat) (input : Array Char) (offset : Nat) : Text :=
  controlsEscaped (phraseText input offset limit) ++
    if input.size ≤ offset + limit then [] else "..."

/-- The line of an operator entered. -/
def downLine (g : Grammar) (limit : Nat) (t : Trace) (op : Opcode) (offset : Nat) : Styled :=
  paint .faint (indentation t.depth) ++ plain "|-|[" ++ label g op ++ plain "]" ++
    paint .faint (preview limit t.input offset)

/-- The mark of an outcome. -/
def marker : MatchState → Styled
  | .matched => paint .hit "|M|"
  | .emptyMatch => paint .hit "|E|"
  | .noMatch | .active => paint .miss "|N|"

/-- What a line on the way up shows after the operator. -/
def outcomeText (input : Array Char) (p : Phrase) (offset : Nat) : Styled :=
  match p.state with
  | .matched =>
    plain "'" ++ paint .hit (controlsEscaped (phraseText input offset p.length)) ++ plain "'"
  | .emptyMatch => plain "''"
  | .noMatch | .active => []

/-- The line of an operator left, `depth` operators being open around it. -/
def upLine (g : Grammar) (input : Array Char) (depth : Nat) (op : Opcode) (p : Phrase)
    (offset : Nat) : Styled :=
  paint .faint (indentation depth) ++ marker p.state ++ plain "[" ++ label g op ++ plain "]" ++
    outcomeText input p offset

/-- **The watcher that writes a trace.**  A new match starts a new trace. -/
def watch (g : Grammar) (limit : Nat) : Watcher Trace := fun t e =>
  match e with
  | .start input => { input := input, depth := 0, newest := [] }
  | .down op offset =>
    { t with depth := t.depth + 1, newest := downLine g limit t op offset :: t.newest }
  | .up op p offset =>
    { t with
      depth := t.depth - 1
      newest := upLine g t.input (t.depth - 1) op p offset :: t.newest }

end Trace
end SignIn
