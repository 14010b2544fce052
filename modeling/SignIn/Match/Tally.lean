import SignIn.Grammar.Basic
import SignIn.Match.Event
import SignIn.Text.Styled
/-!
# Tallies

How often each kind of operator, each rule and each terminal matched, matched the empty text, or
failed.  A tally goes on from match to match; only a result adds to it, so a match that is broken off
leaves what it had counted.
-/
namespace SignIn

/-- **Outcomes counted.** -/
structure Counts where
  matched : Nat
  empty : Nat
  noMatch : Nat
  deriving DecidableEq

namespace Counts

/-- Nothing counted. -/
def zero : Counts := ⟨0, 0, 0⟩

/-- Everything counted. -/
def total (c : Counts) : Nat := c.matched + c.empty + c.noMatch

/-- Counts added up. -/
def add (a b : Counts) : Counts := ⟨a.matched + b.matched, a.empty + b.empty, a.noMatch + b.noMatch⟩

/-- **An outcome adds one to its count.** -/
def record (state : MatchState) (c : Counts) : Counts :=
  match state with
  | .matched => { c with matched := c.matched + 1 }
  | .emptyMatch => { c with empty := c.empty + 1 }
  | .noMatch | .active => { c with noMatch := c.noMatch + 1 }

end Counts

/-- **Counts by operator, by rule and by terminal.** -/
structure Tally where
  operators : Vector Counts 10
  rules : Array Counts
  udts : Array Counts

namespace Tally

/-- The tally of nothing. -/
def empty (g : Grammar) : Tally :=
  ⟨Vector.replicate 10 .zero, Array.replicate g.rules.size .zero, Array.replicate g.udts.size .zero⟩

/-- The counts of an operator. -/
def operator (t : Tally) (o : Operator) : Counts := t.operators[o.slot]

/-- The counts of all operators together. -/
def total (t : Tally) : Counts := t.operators.toList.foldl Counts.add .zero

/-- **The watcher that counts.** -/
def watch : Watcher Tally := fun t e =>
  match e with
  | .start _ | .down _ _ => t
  | .up op p _ =>
    let slot := op.operator.slot
    let t := { t with operators := t.operators.set slot (t.operators[slot].record p.state) }
    match op with
    | .rnm id => { t with rules := t.rules.modify id.index (Counts.record p.state) }
    | .udt id => { t with udts := t.udts.modify id.index (Counts.record p.state) }
    | _ => t

/-! ## The table of a tally -/

/-- The width of a column of counts. -/
def countWidth : Nat := 9

/-- Four columns after the first. -/
def columns (cells : List Text) : Text :=
  cells.flatMap fun c => ' ' :: alignRight ' ' countWidth c

/-- The four counts of a row. -/
def countColumns (c : Counts) : Text :=
  columns ([c.matched, c.empty, c.noMatch, c.total].map decimal)

/-- The heading of a table, its first column as wide as given. -/
def heading (width : Nat) (title : Text) : Styled :=
  paint .faint (alignLeft width title ++ columns ["MATCH", "EMPTY", "NOMATCH", "TOTAL"])

/-- The width of the column of operators. -/
def operatorWidth : Nat := 8

/-- The width of the column of names. -/
def nameWidth : Nat := 24

/-- The row of an operator. -/
def operatorRow (title : Text) (c : Counts) : Styled :=
  plain (alignLeft operatorWidth title ++ countColumns c)

/-- The row of a rule or a terminal. -/
def nameRow (row : Text × Counts) : Styled :=
  paint .name (alignLeft nameWidth row.1) ++ plain (countColumns row.2)

/-- Texts in the order of their characters. -/
def textLe : Text → Text → Bool
  | [], _ => true
  | _ :: _, [] => false
  | a :: as, b :: bs => decide (a < b) || (a == b && textLe as bs)

/-- **The order of the rows:** the greater total first, equal totals by name. -/
def rowLe (a b : Text × Counts) : Bool :=
  decide (b.2.total < a.2.total) || (a.2.total == b.2.total && textLe a.1 b.1)

/-- The rules and terminals that were counted, in the order of the rows. -/
def rows (g : Grammar) (t : Tally) : List (Text × Counts) :=
  let rules := (g.rules.toList.map Rule.name).zip t.rules.toList
  let udts := (g.udts.toList.map Udt.name).zip t.udts.toList
  ((rules ++ udts).filter fun r => decide (0 < r.2.total)).mergeSort rowLe

/-- The table of operators: those that were counted, and the sum. -/
def operatorTable (t : Tally) : List Styled :=
  let counted := Operator.all.filter fun o => decide (0 < (t.operator o).total)
  heading operatorWidth "OPERATOR" ::
    (counted.map fun o => operatorRow o.mnemonic (t.operator o)) ++ [operatorRow "total" t.total]

/-- **The tally as output:** the table of operators, and below it that of the rules and terminals
that were counted, if there are any. -/
def listing (g : Grammar) (t : Tally) : Styled :=
  Styled.lines (operatorTable t) ++
    match rows g t with
    | [] => []
    | rs => plain "\n" ++ Styled.lines (heading nameWidth "RULE" :: rs.map nameRow)

end Tally
end SignIn
