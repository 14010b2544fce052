import SignIn.Text.Basic
/-!
# Text with styles

A listing, a trace or a diagnostic is a list of pieces, each with the style it is shown in, and
colours are decided once, when the pieces are written out.  Without colours a style leaves no mark,
so turning colours off deletes exactly the escape sequences; nothing else in the library knows one.
-/
namespace SignIn

/-- **What a piece of output is,** so far as it is shown apart from plain text. -/
inductive Style where
  /-- a rule or UDT name -/
  | name
  /-- a phrase that matched, and literals -/
  | hit
  /-- a failed match -/
  | miss
  /-- indentation, indices and headings -/
  | faint
  /-- the message of a diagnostic -/
  | strong
  /-- the word `error`, the marks under a span and their label -/
  | alarm
  /-- line numbers and the rule beside them -/
  | gutter
  deriving DecidableEq

/-- The escape sequence that turns a style on. -/
def Style.code : Style → Text
  | .name   => "\x1b[34m"
  | .hit    => "\x1b[32m"
  | .miss   => "\x1b[31m"
  | .faint  => "\x1b[2m"
  | .strong => "\x1b[1m"
  | .alarm  => "\x1b[1m\x1b[91m"
  | .gutter => "\x1b[1m\x1b[94m"

/-- The escape sequence that ends every style. -/
def Style.reset : Text := "\x1b[0m"

/-- A stretch of text in one style, or in none. -/
structure Piece where
  style : Option Style
  text : Text

/-- **Output is a list of pieces.** -/
abbrev Styled := List Piece

/-- Text in no style. -/
def plain (t : Text) : Styled := [⟨none, t⟩]

/-- Text in a style.  An empty text is a piece too: its escape sequences are written. -/
def paint (s : Style) (t : Text) : Styled := [⟨some s, t⟩]

instance : Coe Text Styled := ⟨plain⟩

instance : Coe String Styled := ⟨fun s => plain s⟩

/-- **With colours a piece stands between its code and the reset, without them it is its text.** -/
def Piece.render (colored : Bool) (p : Piece) : Text :=
  match colored, p.style with
  | true, some s => s.code ++ p.text ++ Style.reset
  | _, _ => p.text

/-- The text of the whole output. -/
def Styled.render (colored : Bool) (s : Styled) : Text := s.flatMap (Piece.render colored)

/-- Lines of output, each followed by a line feed. -/
def Styled.lines (ls : List Styled) : Styled := ls.flatMap (· ++ plain "\n")

end SignIn
