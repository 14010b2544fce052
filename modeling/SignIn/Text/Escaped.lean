import SignIn.Text.Basic
import SignIn.Text.GraphemeExtend
import SignIn.Text.Ignorable
import SignIn.Text.Unprintable
/-!
# Texts shown on one line

A listing shows a literal so that every character can be told from every other and the line is
never broken.  Seven characters have a spelling of their own (`\0`, `\t`, `\r`, `\n`, the backslash
and the two quotation marks); what has no printed form, what shows nothing, and what would attach itself
to the mark in front of it, is shown as `\u{…}` with its code point in hexadecimal; the rest stands for
itself.

The places that show text differ only in which of the optional spellings they use, and `Escaping` is
that choice.
-/
namespace SignIn

/-- **What a place escapes beyond the characters it must.** -/
structure Escaping where
  /-- the single quotation mark -/
  single : Bool
  /-- the double quotation mark -/
  double : Bool
  /-- characters that attach themselves to the one before them -/
  attaching : Bool

/-- Literals in listings and traces: everything is escaped. -/
def Escaping.full : Escaping := ⟨true, true, true⟩

/-- The inside of a phrase after its first character: a mark may attach to its base. -/
def Escaping.inner : Escaping := ⟨true, true, false⟩

/-- One character between single quotation marks. -/
def Escaping.quotedChar : Escaping := ⟨true, false, true⟩

/-- A text between double quotation marks. -/
def Escaping.quotedText : Escaping := ⟨false, true, true⟩

/-- **Seven characters have a short spelling,** the quotation marks only where the place asks. -/
def Escaping.short? (e : Escaping) (c : Char) : Option Char :=
  if c.toNat = 0x00 then some '0'
  else if c.toNat = 0x09 then some 't'
  else if c.toNat = 0x0a then some 'n'
  else if c.toNat = 0x0d then some 'r'
  else if c.toNat = 0x5c then some c
  else if c.toNat = 0x22 && e.double then some c
  else if c.toNat = 0x27 && e.single then some c
  else none

/-- The spelling of a character by its code point. -/
def codePointEscape (c : Char) : Text := "\\u\x7b" ++ hexadecimal c.toNat ++ "\x7d"

/-- **One character as it is shown.** -/
def Escaping.char (e : Escaping) (c : Char) : Text :=
  match e.short? c with
  | some s => ['\x5c', s]
  | none =>
    if (e.attaching && attaches c) || isIgnorable c || isUnprintable c then codePointEscape c
    else [c]

/-- **A literal is shown character by character.** -/
def escaped (t : Text) : Text := t.flatMap Escaping.full.char

/-- **A phrase may hold marks, but does not begin with one:** its first character is shown as in a
literal, the others keep the marks attached to their bases. -/
def escapedPhrase : Text → Text
  | [] => []
  | c :: t => Escaping.full.char c ++ t.flatMap Escaping.inner.char

/-- **A trace escapes controls alone,** which is what keeps each of its entries on one line. -/
def controlsEscaped (t : Text) : Text :=
  t.flatMap (fun c => if isControl c then Escaping.full.char c else [c])

/-- A character between single quotation marks. -/
def quotedChar (c : Char) : Text := "'" ++ Escaping.quotedChar.char c ++ "'"

/-- A text between double quotation marks. -/
def quotedText (t : Text) : Text := "\"" ++ t.flatMap Escaping.quotedText.char ++ "\""

end SignIn
