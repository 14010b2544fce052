import SignIn.Text.Basic
/-!
# Date-times

A date-time is read byte by byte, each field a fixed number of digits at a fixed place, and is accepted if
it names an instant that exists: a day of its month, an hour, minute and second of the day (no leap
seconds), and an offset within a day.  The fraction of a second may have any length, and is dropped.
-/
namespace SignIn

/-- **A date-time's fields.**  The offset from universal time is in minutes. -/
structure DateTime where
  year : Nat
  month : Nat
  day : Nat
  hour : Nat
  minute : Nat
  second : Nat
  offset : Int
  deriving DecidableEq

/-- **Leap years** are those divisible by four, but of the centuries only those divisible by 400. -/
def isLeapYear (year : Nat) : Bool :=
  (year % 4 == 0 && year % 100 != 0) || year % 400 == 0

/-- **The days of a month;** what is no month has none. -/
def daysInMonth (year month : Nat) : Nat :=
  match month with
  | 1 | 3 | 5 | 7 | 8 | 10 | 12 => 31
  | 4 | 6 | 9 | 11 => 30
  | 2 => if isLeapYear year then 29 else 28
  | _ => 0

/-! ## Reading bytes at their places -/

/-- Whether a byte is an ASCII digit. -/
def isDigitByte (b : UInt8) : Bool := decide ('0'.toUInt8 ≤ b) && decide (b ≤ '9'.toUInt8)

/-- A byte in lower case, if it is an ASCII letter. -/
def lowerByte (b : UInt8) : UInt8 :=
  if 'A'.toUInt8 ≤ b ∧ b ≤ 'Z'.toUInt8 then b + 32 else b

/-- One more digit of a number. -/
def addDigit (value : Nat) (b : UInt8) : Option Nat :=
  if isDigitByte b then some (10 * value + (b - '0'.toUInt8).toNat) else none

/-- **The number of `length` digits at a place,** if they are there and are digits. -/
def digitsAt (bytes : List UInt8) (place length : Nat) : Option Nat :=
  if place + length ≤ bytes.length then ((bytes.drop place).take length).foldlM addDigit 0 else none

/-- A mark that has to stand at a place. -/
def markAt (bytes : List UInt8) (place : Nat) (mark : Char) : Option Unit :=
  if bytes[place]? = some mark.toUInt8 then some () else none

/-- A letter that has to stand at a place, in either case. -/
def letterAt (bytes : List UInt8) (place : Nat) (letter : Char) : Option Unit :=
  if bytes[place]?.map lowerByte = some letter.toUInt8 then some () else none

/-- **Where the fraction of a second ends** that may stand at a place: a point needs a digit after it. -/
def fractionEnd (bytes : List UInt8) (place : Nat) : Option Nat :=
  if bytes[place]? = some '.'.toUInt8 then
    let count := ((bytes.drop (place + 1)).takeWhile isDigitByte).length
    if count = 0 then none else some (place + 1 + count)
  else some place

/-- **The offset that is left at the end:** `Z`, or a sign with hours and minutes of a day. -/
def offsetOf : List UInt8 → Option Int
  | [] => none
  | sign :: rest =>
    if lowerByte sign = 'z'.toUInt8 ∧ rest = [] then some 0
    else if (sign = '+'.toUInt8 ∨ sign = '-'.toUInt8) ∧ rest.length = 5 then do
      let hours ← digitsAt rest 0 2
      markAt rest 2 ':'
      let minutes ← digitsAt rest 3 2
      if hours ≤ 23 ∧ minutes ≤ 59 then
        let total : Int := hours * 60 + minutes
        return if sign = '-'.toUInt8 then -total else total
      else none
    else none

/-! ## Date-times -/

/-- **Whether the fields name an instant.** -/
def DateTime.exists (d : DateTime) : Bool :=
  decide (1 ≤ d.month) && decide (d.month ≤ 12) && decide (1 ≤ d.day) &&
    decide (d.day ≤ daysInMonth d.year d.month) && decide (d.hour ≤ 23) &&
    decide (d.minute ≤ 59) && decide (d.second ≤ 59)

/-- **The date-time of a text's bytes,** if they are one and it names an instant.  No date-time is shorter than 20 bytes. -/
def DateTime.ofBytes? (bytes : List UInt8) : Option DateTime :=
  if bytes.length < 20 then none
  else do
    let year ← digitsAt bytes 0 4
    markAt bytes 4 '-'
    let month ← digitsAt bytes 5 2
    markAt bytes 7 '-'
    let day ← digitsAt bytes 8 2
    letterAt bytes 10 't'
    let hour ← digitsAt bytes 11 2
    markAt bytes 13 ':'
    let minute ← digitsAt bytes 14 2
    markAt bytes 16 ':'
    let second ← digitsAt bytes 17 2
    let place ← fractionEnd bytes 19
    let offset ← offsetOf (bytes.drop place)
    let d : DateTime := ⟨year, month, day, hour, minute, second, offset⟩
    if d.exists then some d else none

/-- **The date-time of a text,** by its bytes in UTF-8. -/
def DateTime.parse? (t : Text) : Option DateTime := DateTime.ofBytes? (t.flatMap String.utf8EncodeChar)

/-- Whether a text is a date-time that exists. -/
def isDateTime (t : Text) : Bool := (DateTime.parse? t).isSome

end SignIn
