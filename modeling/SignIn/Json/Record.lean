import SignIn.Text.Basic
/-!
# Writing JSON

What the library writes as JSON is one record: an object whose values are numbers, truth values,
strings and lists of strings.  It is written on one line or spread over several, and the two layouts
differ only in what stands before an item and behind a colon.

In a string the quotation mark, the backslash and the control characters below U+0020 are escaped;
every other character stands for itself.
-/
namespace SignIn.Json

/-- **The value of a member.** -/
inductive Value where
  | number (n : Nat)
  | truth (b : Bool)
  | string (t : Text)
  | strings (ts : List Text)
  deriving DecidableEq

/-- **A record is its members in order.** -/
abbrev Record := List (Text × Value)

/-- **The characters with a short escape,** each with the letter behind the backslash. -/
def shortEscapes : List (Char × Char) :=
  [('"', '"'), ('\\', '\\'), ('\x08', 'b'), ('\x0c', 'f'), ('\n', 'n'), ('\r', 'r'), ('\t', 't')]

/-- **One character of a string as it is written.** -/
def escapedChar (c : Char) : Text :=
  match shortEscapes.find? (·.1 == c) with
  | some (_, letter) => ['\\', letter]
  | none =>
    if c.toNat < 0x20 then "\\u" ++ alignRight '0' 4 (hexadecimal c.toNat) else [c]

/-- A string between quotation marks. -/
def quoted (t : Text) : Text := "\"" ++ t.flatMap escapedChar ++ "\""

/-- **How a record is laid out.** -/
inductive Layout where
  /-- on one line, without blanks -/
  | compact
  /-- an item a line, two blanks deeper than its brackets -/
  | pretty
  deriving DecidableEq

/-- What stands before an item or a closing bracket at a depth. -/
def Layout.break (l : Layout) (depth : Nat) : Text :=
  match l with
  | .compact => []
  | .pretty => '\n' :: List.replicate (2 * depth) ' '

/-- What stands between a key and its value. -/
def Layout.colon : Layout → Text
  | .compact => ":"
  | .pretty => ": "

/-- **Items between brackets;** an empty pair of brackets is never spread. -/
def Layout.enclosed (l : Layout) (opening closing : Char) (depth : Nat) (items : List Text) : Text :=
  if items.isEmpty then [opening, closing]
  else
    [opening] ++ List.intercalate [','] (items.map (l.break (depth + 1) ++ ·)) ++ l.break depth ++
      [closing]

/-- The text of a value. -/
def Value.text (l : Layout) (depth : Nat) : Value → Text
  | .number n => decimal n
  | .truth b => if b then "true".toList else "false".toList
  | .string t => quoted t
  | .strings ts => l.enclosed '[' ']' depth (ts.map quoted)

/-- **The text of a record.** -/
def Record.text (l : Layout) (r : Record) : Text :=
  l.enclosed '\x7b' '\x7d' 0 (r.map fun (key, value) => quoted key ++ l.colon ++ value.text l 1)

end SignIn.Json
