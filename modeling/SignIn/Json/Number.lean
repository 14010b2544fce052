import SignIn.Json.Error
import SignIn.Number.Shortest
/-!
# Reading numbers

A number without a point and an exponent is an integer as long as it fits into 64 bits; every other
one is a double.  The digits of a double are gathered into a significand of 64 bits: a digit of the
integer part that no longer fits only moves the point, and one behind the point is dropped.
-/
namespace SignIn.Json

/-- **A number as it was read.** -/
inductive Number where
  | natural (n : Nat)
  /-- a negative integer, by its magnitude -/
  | negative (n : Nat)
  | double (minus : Bool) (x : Double)

/-- What a number is called in an error. -/
def Number.found : Number → Found
  | .natural n => .integer (decimal n)
  | .negative n => .integer ('-' :: decimal n)
  | .double minus x => .float (x.text minus)

/-- **Digits gathered so far:** a significand, the power of ten it stands with, and whether another
digit was too much for it. -/
structure Gathered where
  significand : Nat
  power : Int
  full : Bool

namespace Gathered

/-- The significand with one more digit, if it fits. -/
def push? (g : Gathered) (digit : Char) : Option Nat :=
  let n := g.significand * 10 + (digit.toNat - '0'.toNat)
  if g.full || decide (Nat.pow 2 64 ≤ n) then none else some n

/-- A digit before the point. -/
def integerDigit (g : Gathered) (digit : Char) : Gathered :=
  match g.push? digit with
  | some n => { g with significand := n }
  | none => { g with power := g.power + 1, full := true }

/-- A digit behind the point. -/
def fractionDigit (g : Gathered) (digit : Char) : Gathered :=
  match g.push? digit with
  | some n => { g with significand := n, power := g.power - 1 }
  | none => { g with full := true }

end Gathered

/-- The digits at the front of a text, and what is behind them. -/
def spanDigits (t : Text) : Text × Text := (t.takeWhile Char.isDigit, t.dropWhile Char.isDigit)

/-- Whether a text begins with a digit. -/
def digitNext : Text → Bool
  | c :: _ => c.isDigit
  | [] => false

/-- **The double of the gathered digits;** one beyond the greatest double is no number. -/
def gatheredDouble (negative : Bool) (g : Gathered) (t : Text) : Except Stop (Number × Text) :=
  match Double.scaled? g.significand g.power with
  | some x => .ok (.double negative x, t)
  | none => .error (.atLast .numberTooGreat t)

/-- What is left of a text behind the digit with which its digits no longer fit into 31 bits. -/
def behindOverflow? (value : Nat) : Text → Option Text
  | [] => none
  | c :: t =>
    let next := value * 10 + (c.toNat - '0'.toNat)
    if !c.isDigit then none else if Nat.pow 2 31 ≤ next then some t else behindOverflow? next t

/-- **An exponent,** read from behind its letter.  One of more than 31 bits is given up at once, unless
it can only lead to zero. -/
def readExponent (negative : Bool) (g : Gathered) (t : Text) : Except Stop (Number × Text) :=
  let (minus, t) : Bool × Text := match t with
    | '+' :: t => (false, t)
    | '-' :: t => (true, t)
    | t => (false, t)
  match t with
  | [] => .error (.unfinished .value)
  | c :: _ =>
    if !c.isDigit then .error (.atNext .badNumber t)
    else
      match behindOverflow? 0 t, minus || g.significand == 0 with
      | some r, false => .error (.atLast .numberTooGreat r)
      | _, _ =>
        let (digits, t) := spanDigits t
        let n : Int := decimalValue digits
        gatheredDouble negative { g with power := if minus then g.power - n else g.power + n } t

/-- What may follow the digits of a double. -/
def readScale (negative : Bool) (g : Gathered) (t : Text) : Except Stop (Number × Text) :=
  match t with
  | 'e' :: t | 'E' :: t => readExponent negative g t
  | t => gatheredDouble negative g t

/-- **The digits behind a point;** there has to be one. -/
def readFraction (negative : Bool) (g : Gathered) (t : Text) : Except Stop (Number × Text) :=
  match t with
  | [] => .error (.unfinished .value)
  | c :: _ =>
    if c.isDigit then
      let (digits, t) := spanDigits t
      readScale negative (digits.foldl Gathered.fractionDigit { g with full := false }) t
    else .error (.atNext .badNumber t)

/-- **A number without a point and an exponent:** an integer if it fits, and a double if it does not
or is a zero with a sign. -/
def wholeNumber (negative : Bool) (g : Gathered) (t : Text) : Except Stop (Number × Text) :=
  if g.full then gatheredDouble negative g t
  else if !negative then .ok (.natural g.significand, t)
  else if g.significand = 0 || decide (Nat.pow 2 63 < g.significand) then gatheredDouble true g t
  else .ok (.negative g.significand, t)

/-- **A number,** read from behind its sign.  A leading zero stands alone. -/
def readNumber (negative : Bool) (t : Text) : Except Stop (Number × Text) :=
  match t with
  | [] => .error (.unfinished .value)
  | c :: r =>
    if !c.isDigit then .error (.atNext .badNumber t)
    else if c = '0' && digitNext r then .error (.atNext .badNumber r)
    else
      let (digits, t) := spanDigits t
      let g := digits.foldl Gathered.integerDigit ⟨0, 0, false⟩
      match t with
      | '.' :: t => readFraction negative g t
      | 'e' :: t | 'E' :: t => readExponent negative g t
      | t => wholeNumber negative g t

/-- **A natural number below a bound,** without a sign, a point or an exponent. -/
def readBounded (bound : Nat) (t : Text) : Except Stop (Fin bound × Text) :=
  match t with
  | [] => .error (.unfinished .value)
  | c :: r =>
    if c = '-' then .error (.atNext .numberTooGreat t)
    else if !c.isDigit then .error (.atNext .badNumber t)
    else if c = '0' && digitNext r then .error (.atNext .badNumber r)
    else
      let (digits, t) := spanDigits t
      if h : decimalValue digits < bound then .ok (⟨decimalValue digits, h⟩, t)
      else .error (.atLast .numberTooGreat t)

end SignIn.Json
