import SignIn.Grammar.Expr
/-!
# Characters that the bundled rules share

Character classes are written where they are used, not referred to by name, so that neither a trace
nor a tally has an entry for them.
-/
namespace SignIn
namespace Rules

/-- A line feed. -/
def lf : Expr := .ch 10

/-- **A character of a line:** any of ASCII but the line feed. -/
def lineChar : Expr := .alt [.trg 0 9, .trg 11 127]

/-- A decimal digit. -/
def digit : Expr := .trg 48 57

/-- A small letter. -/
def lower : Expr := .trg 97 122

/-- A capital letter. -/
def upper : Expr := .trg 65 90

/-- A hexadecimal digit in either case. -/
def hexDigit : Expr := .alt [digit, .trg 65 70, .trg 97 102]

end Rules
end SignIn
