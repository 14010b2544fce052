import SignIn.Json.Expect
/-!
# Values that nobody asked for

The value of a key that means nothing is read past.  It has to be JSON all the same, but nothing is
made of it: numbers of any size will do, and surrogates need not be paired.
-/
namespace SignIn.Json

/-- **What may be open around a value.** -/
inductive Bracket where
  | list
  | object
  deriving DecidableEq

namespace Bracket

def closing : Bracket → Char
  | .list => ']'
  | .object => '\x7d'

def unfinished : Bracket → Unfinished
  | .list => .list
  | .object => .object

def endExpected : Bracket → Malformed
  | .list => .listEndExpected
  | .object => .objectEndExpected

end Bracket

/-- The rest of a string, read past from behind its opening quotation mark.  The first argument bounds
the recursion by the characters left. -/
def skipString : Nat → Text → Except Stop Text
  | 0, _ => .error (.unfinished .string)
  | _ + 1, [] => .error (.unfinished .string)
  | fuel + 1, c :: t =>
    if c = '"' then .ok t
    else if c = '\\' then
      match t with
      | [] => .error (.unfinished .string)
      | letter :: r =>
        if (shortEscape? letter).isSome then skipString fuel r
        else if letter = 'u' then do
          let (_, r) ← readHex r
          skipString fuel r
        else .error (.atNext .badEscape t)
    else if c.toNat < 0x20 then .error (.atLast .controlCharacter (c :: t))
    else skipString fuel t

/-- One or more digits, read past. -/
def skipDigits (t : Text) : Except Stop Text :=
  if digitNext t then .ok (spanDigits t).2 else .error (.atNext .badNumber t)

/-- What may follow the digits of a number, from its exponent on. -/
def skipExponent (t : Text) : Except Stop Text :=
  match t with
  | 'e' :: t | 'E' :: t =>
    match t with
    | '+' :: t | '-' :: t => skipDigits t
    | t => skipDigits t
  | t => .ok t

/-- A number, read past from behind its sign. -/
def skipNumber (t : Text) : Except Stop Text := do
  let t ← match t with
    | '0' :: r => if digitNext r then throw (.atNext .badNumber r) else pure r
    | t => skipDigits t
  match t with
  | '.' :: t => skipExponent (← skipDigits t)
  | t => skipExponent t

/-- **A value without its items:** past the whole of it, or past the bracket that opens it. -/
def skipHead (t : Text) : Except Stop (Option Bracket × Text) :=
  match skipBlanks t with
  | [] => .error (.unfinished .value)
  | c :: r =>
    let whole (result : Except Stop Text) : Except Stop (Option Bracket × Text) :=
      result.map fun t => (none, t)
    if c = 'n' then whole (readWord "ull" r)
    else if c = 't' then whole (readWord "rue" r)
    else if c = 'f' then whole (readWord "alse" r)
    else if c = '-' then whole (skipNumber r)
    else if c.isDigit then whole (skipNumber (c :: r))
    else if c = '"' then whole (skipString (r.length + 1) r)
    else if c = '[' then .ok (some .list, r)
    else if c = '\x7b' then .ok (some .object, r)
    else .error (.atNext .valueExpected (c :: r))

/-- A key and its colon, where the bracket around them is an object's. -/
def skipKey (around : Bracket) (t : Text) : Except Stop Text :=
  match around, skipBlanks t with
  | .list, t => .ok t
  | .object, [] => .error (.unfinished .object)
  | .object, c :: r => do
    if c = '"' then readColon (← skipString (r.length + 1) r)
    else throw (.atNext .keyNotString (c :: r))

mutual

/-- A value and all that is open around it, the innermost bracket first.  The first argument bounds the
recursion by the characters left. -/
def skipFrom : Nat → List Bracket → Text → Except Stop Text
  | 0, _, _ => .error (.unfinished .value)
  | fuel + 1, around, t => do
    match ← skipHead t with
    | (none, t) => skipRest fuel around t
    | (some b, t) =>
      match skipBlanks t with
      | [] => throw (.unfinished b.unfinished)
      | c :: r =>
        if c = b.closing then skipRest fuel around r
        else skipFrom fuel (b :: around) (← skipKey b (c :: r))

/-- What is open around a value that has been read past. -/
def skipRest : Nat → List Bracket → Text → Except Stop Text
  | _, [], t => .ok t
  | 0, b :: _, _ => .error (.unfinished b.unfinished)
  | fuel + 1, b :: around, t =>
    match skipBlanks t with
    | [] => .error (.unfinished b.unfinished)
    | c :: r =>
      if c = ',' then do skipFrom fuel (b :: around) (← skipKey b r)
      else if c = b.closing then skipRest fuel around r
      else .error (.atNext b.endExpected (c :: r))

end

/-- **A value is read past.** -/
def skipValue (t : Text) : Except Stop Text := skipFrom (t.length + 1) [] t

end SignIn.Json
