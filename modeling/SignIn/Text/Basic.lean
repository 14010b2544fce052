/-!
# Text as a list of characters

Every text the library reads or writes is the list of its characters, so that a slice is a `take`
and a `drop`, a concatenation is `++`, and a proof about a text is an induction on a list.  A
string literal stands for its characters wherever a text is expected.

Offsets inside the matcher count characters.  Offsets that leave the library, the spans of an error,
count the bytes of the text's UTF-8 form; `utf8Length` is the one place where the two meet.
-/
namespace SignIn

/-- **A text is its characters in order.** -/
abbrev Text := List Char

instance : Coe String Text := ⟨String.toList⟩

instance : LawfulBEq Text := inferInstance

/-- **Names are compared after ASCII case folding;** other letters stand for themselves. -/
def foldCase (t : Text) : Text := t.map Char.toLower

/-- The decimal digits of a number, without leading zeros. -/
def decimal (n : Nat) : Text := Nat.toDigits 10 n

/-- The lowercase hexadecimal digits of a number, without leading zeros. -/
def hexadecimal (n : Nat) : Text := Nat.toDigits 16 n

/-- The number a run of decimal digits stands for. -/
def decimalValue (digits : Text) : Nat := Nat.ofDigitChars 10 digits 0

/-- **A hexadecimal digit is a decimal digit or a letter from `a` to `f` in either case.** -/
def isHexDigit (c : Char) : Bool :=
  c.isDigit || (decide ('a' ≤ c) && decide (c ≤ 'f')) || (decide ('A' ≤ c) && decide (c ≤ 'F'))

/-- The value of a hexadecimal digit, and nothing for any other character. -/
def hexValue? (c : Char) : Option Nat :=
  if c.isDigit then some (c.toNat - '0'.toNat)
  else if decide ('a' ≤ c) && decide (c ≤ 'f') then some (c.toNat - 'a'.toNat + 10)
  else if decide ('A' ≤ c) && decide (c ≤ 'F') then some (c.toNat - 'A'.toNat + 10)
  else none

/-- **A span counts bytes:** the length of the UTF-8 form of a text. -/
def utf8Length (t : Text) : Nat := (t.map Char.utf8Size).foldr (· + ·) 0

/-- A text filled with blanks on the right up to a width; a longer text is left alone. -/
def alignLeft (width : Nat) (t : Text) : Text := t ++ List.replicate (width - t.length) ' '

/-- A text filled on the left up to a width; a longer text is left alone. -/
def alignRight (fill : Char) (width : Nat) (t : Text) : Text :=
  List.replicate (width - t.length) fill ++ t

/-- **Each line is followed by a line feed,** the last one too. -/
def unlines (lines : List Text) : Text := lines.flatMap (· ++ ['\n'])

end SignIn
