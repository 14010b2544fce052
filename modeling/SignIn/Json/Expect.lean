import SignIn.Json.Number
import SignIn.Json.Reader
/-!
# Values that are asked for

A reader of a string, of a number or of a list asks for one kind of value.  A value of another kind is
read to its end, lists and objects apart, before it is refused: what is no JSON is an error before what
was not asked for.
-/
namespace SignIn.Json

/-- **The refusal of the value at the front of a text,** which begins with no blank. -/
def refusal (expected : Text) (t : Text) : Stop :=
  let refuse (found : Found) (r : Text) : Stop := .unsuitable (.kind found expected) r
  match t with
  | [] => .unfinished .value
  | c :: r =>
    if c = 'n' then
      match readWord "ull" r with
      | .ok r => refuse .null r
      | .error e => e
    else if c = 't' then
      match readWord "rue" r with
      | .ok r => refuse (.truth true) r
      | .error e => e
    else if c = 'f' then
      match readWord "alse" r with
      | .ok r => refuse (.truth false) r
      | .error e => e
    else if c = '"' then
      match readString r with
      | .ok (s, r) => refuse (.string s) r
      | .error e => e
    else if c = '[' then refuse .list t
    else if c = '\x7b' then refuse .object t
    else if c = '-' || c.isDigit then
      match readNumber (c == '-') (if c = '-' then r else t) with
      | .ok (n, r) => refuse n.found r
      | .error e => e
    else .atNext .valueExpected t

/-- What a reader of strings asks for. -/
def stringExpected : Text := "a string"

/-- What a reader of lists asks for. -/
def listExpected : Text := "a sequence"

/-- **A string is asked for.** -/
def readText (t : Text) : Except Stop (Text × Text) :=
  match skipBlanks t with
  | '"' :: t => readString t
  | t => .error (refusal stringExpected t)

/-- **A value or null is asked for.** -/
def readNullable {α : Type} (read : Text → Except Stop (α × Text)) (t : Text) :
    Except Stop (Option α × Text) :=
  match skipBlanks t with
  | 'n' :: t => do
    let t ← readWord "ull" t
    return (none, t)
  | t => do
    let (x, t) ← read t
    return (some x, t)

/-- **An integer below a bound is asked for.** -/
def readInteger (bound : Nat) (expected : Text) (t : Text) : Except Stop (Fin bound × Text) := do
  let t := skipBlanks t
  let (n, t) ← match t with
    | '-' :: t => readNumber true t
    | c :: _ => if c.isDigit then readNumber false t else throw (refusal expected t)
    | [] => throw (refusal expected t)
  match n with
  | .natural n =>
    if h : n < bound then return (⟨n, h⟩, t)
    else throw (.unsuitable (.value (Number.natural n).found expected) t)
  | .negative n => throw (.unsuitable (.value (Number.negative n).found expected) t)
  | .double negative x =>
    throw (.unsuitable (.kind (Number.double negative x).found expected) t)

/-- **Whether a list goes on:** the text of its next item, or nothing at its end.  From the second item
on a comma stands in front, and behind a comma an item has to follow. -/
def nextItem (first : Bool) (t : Text) : Except Stop (Option Text) :=
  match skipBlanks t with
  | [] => .error (.unfinished .list)
  | c :: r =>
    if c = ']' then .ok none
    else if first then .ok (some (c :: r))
    else if c = ',' then
      match skipBlanks r with
      | [] => .error (.unfinished .value)
      | c :: r => if c = ']' then .error (.atNext .finalComma (c :: r)) else .ok (some (c :: r))
    else .error (.atNext .listEndExpected (c :: r))

/-- **A list has to end.** -/
def readListEnd (t : Text) : Except Stop Text :=
  match skipBlanks t with
  | [] => .error (.unfinished .list)
  | c :: r =>
    if c = ']' then .ok r
    else if c = ',' then
      match skipBlanks r with
      | ']' :: r => .error (.atNext .finalComma (']' :: r))
      | r => .error (.atNext .finalCharacters r)
    else .error (.atNext .finalCharacters (c :: r))

/-- The strings of a list, up to its end.  The first argument bounds the items by the characters left:
where none is left the text has ended. -/
def readItems : Nat → Bool → Text → Except Stop (List Text × Text)
  | 0, _, _ => .error (.unfinished .list)
  | fuel + 1, first, t => do
    match ← nextItem first t with
    | none =>
      let t ← readListEnd t
      return ([], t)
    | some t =>
      let (x, t) ← readText t
      let (xs, t) ← readItems fuel false t
      return (x :: xs, t)

/-- **A list of strings is asked for.** -/
def readTexts (t : Text) : Except Stop (List Text × Text) :=
  match skipBlanks t with
  | '[' :: t => readItems t.length true t
  | t => .error (refusal listExpected t)

/-- **Whether an object goes on:** the text behind the quotation mark of its next key, or nothing at its
end. -/
def nextKey (first : Bool) (t : Text) : Except Stop (Option Text) :=
  let key : Text → Except Stop (Option Text)
    | '"' :: t => .ok (some t)
    | t => .error (.atNext .keyNotString t)
  match skipBlanks t with
  | [] => .error (.unfinished .object)
  | c :: r =>
    if c = '\x7d' then .ok none
    else if first then key (c :: r)
    else if c = ',' then
      match skipBlanks r with
      | [] => .error (.unfinished .value)
      | c :: r => if c = '\x7d' then .error (.atNext .finalComma (c :: r)) else key (c :: r)
    else .error (.atNext .objectEndExpected (c :: r))

/-- **A colon has to follow a key.** -/
def readColon (t : Text) : Except Stop Text :=
  match skipBlanks t with
  | [] => .error (.unfinished .object)
  | c :: r => if c = ':' then .ok r else .error (.atNext .colonExpected (c :: r))

/-- The text behind a closing bracket, if one is next. -/
def pastBracket (bracket : Char) (t : Text) : Text :=
  match skipBlanks t with
  | [] => []
  | c :: r => if c = bracket then r else c :: r

/-- **Nothing but blanks may follow.** -/
def readEnd (t : Text) : Except Stop Unit :=
  match skipBlanks t with
  | [] => .ok ()
  | t => .error (.atNext .finalCharacters t)

end SignIn.Json
