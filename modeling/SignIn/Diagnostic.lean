import SignIn.Message.Error
import SignIn.Text.Styled
/-!
# Errors shown in their source

An error is shown by its sentence and, where it has a span and the source is at hand, under it the line
of the source on which the span begins, with marks below the characters of the span and a label that
says what is wrong there.

A span counts bytes and a line is shown in characters, so the span is first placed in its line
(`Placed`); what is drawn is drawn from that.
-/
namespace SignIn

/-- **What the label under a span says.** -/
def MessageError.label : MessageError → Text
  | .missingLine .. => "expected here"
  | .malformed _ => "message structure ends here"
  | .field .notChecksummed _ _ => "not ERC-55 checksummed"
  | .field .notANumber _ _ | .field .infinity _ _ => "not a usable integer"
  | .field .. | .engine _ => "rejected by the field grammar"

/-- **A span cut to a source,** and widened to the next byte if it is empty. -/
def Span.within (s : Span) (length : Nat) : Span :=
  let start := min s.start length
  let stop := min s.stop length
  if start = stop then ⟨start, min (start + 1) length⟩ else ⟨start, stop⟩

/-- **The lines of a source.**  A line feed ends a line; behind the last one there is none. -/
def sourceLines : Text → List Text
  | [] => []
  | c :: t =>
    if c = '\n' then [] :: sourceLines t
    else
      match sourceLines t with
      | [] => [[c]]
      | line :: lines => (c :: line) :: lines

/-- How many characters of a text begin within its first bytes. -/
def charsWithin (bytes : Nat) : Text → Nat
  | [] => 0
  | c :: t => if bytes = 0 then 0 else charsWithin (bytes - c.utf8Size) t + 1

/-- **A line of a source,** with its number and its first byte. -/
structure SourceLine where
  number : Nat
  start : Nat
  text : Text

/-- **The line that holds a byte,** its line feed included; the last line holds all that is beyond it.
A source without lines has an empty one. -/
def lineOf (offset : Nat) : SourceLine → List Text → SourceLine
  | here, [] => here
  | here, line :: lines =>
    let stop := here.start + utf8Length here.text + 1
    if offset < stop then here else lineOf offset ⟨here.number + 1, stop, line⟩ lines

/-- The line of a source that holds a byte. -/
def SourceLine.ofText (source : Text) (offset : Nat) : SourceLine :=
  match sourceLines source with
  | [] => ⟨1, 0, []⟩
  | line :: lines => lineOf offset ⟨1, 0, line⟩ lines

/-- **A span placed in its line.** -/
structure Placed where
  line : SourceLine
  /-- the characters of the line in front of the span -/
  column : Nat
  /-- the characters of the line in the span, one at least -/
  width : Nat
  /-- the span begins behind the line feed that ends the line -/
  beyond : Bool

/-- The place of a span in a source. -/
def Placed.ofSpan (source : Text) (span : Span) : Placed :=
  let span := span.within (utf8Length source)
  let line := SourceLine.ofText source span.start
  let column := charsWithin (span.start - line.start) line.text
  let stop := charsWithin (span.stop - line.start) line.text
  { line := line, column := column, width := max 1 (stop - column)
    beyond := decide (utf8Length line.text < span.start - line.start) }

namespace Placed

/-- So many blanks. -/
def blanks (n : Nat) : Text := List.replicate n ' '

/-- The width of the line number. -/
def numberWidth (p : Placed) : Nat := (decimal p.line.number).length

/-- The rule beside the lines, behind so many blanks. -/
def rule (p : Placed) : Styled := plain (blanks (p.numberWidth + 1)) ++ paint .gutter "|"

/-- **Where the span begins:** path, line and column, counted from 1. -/
def pathLine (p : Placed) (path : Text) : Styled :=
  let column := p.column + 1 + (if p.beyond then 1 else 0)
  plain (blanks p.numberWidth) ++ paint .gutter "--> " ++
    plain (path ++ ":" ++ decimal p.line.number ++ ":" ++ decimal column)

/-- The line of the source with its number. -/
def sourceLine (p : Placed) : Styled :=
  paint .gutter (decimal p.line.number) ++ plain " " ++ paint .gutter "|" ++
    (if p.line.text.isEmpty then [] else plain (' ' :: p.line.text))

/-- The marks under the span, and their label. -/
def markLine (p : Placed) (label : Text) : Styled :=
  p.rule ++ plain (blanks (p.column + 1)) ++ paint .alarm (List.replicate p.width '^') ++
    plain " " ++ paint .alarm label

end Placed

/-- Lines of output with line feeds between them. -/
def Styled.joined (lines : List Styled) : Styled := List.intercalate (plain "\n") lines

/-- **An error in its source.**  Without a source or a span it is the sentence alone, in no style. -/
def MessageError.diagnostic (e : MessageError) (source path : Option Text) : Styled :=
  match source, e.span? with
  | some source, some span =>
    let p := Placed.ofSpan source span
    Styled.joined <|
      [paint .alarm "error" ++ paint .strong (": " ++ e.message)] ++
        (path.map p.pathLine).toList ++ [p.rule, p.sourceLine, p.markLine e.label]
  | _, _ => plain ("error: " ++ e.message)

end SignIn
