import SignIn.Text.Escaped
/-!
# What is wrong with a JSON text

A text is read from left to right and the first thing wrong with it is the error.  It may end too
early, it may be no JSON, or it may be JSON that is not what was asked for.

An error is found with some of the text left.  `Stop` keeps that rest, from which the place of the
error follows, so that a reader need not count as it goes.
-/
namespace SignIn.Json

/-- **What a text that ends too early was in the middle of.** -/
inductive Unfinished where
  | list
  | object
  | string
  | value
  deriving DecidableEq

/-- **What makes a text no JSON.** -/
inductive Malformed where
  | colonExpected
  | listEndExpected
  | objectEndExpected
  | wordExpected
  | valueExpected
  | badEscape
  | badNumber
  | numberTooGreat
  | controlCharacter
  | keyNotString
  | loneSurrogate
  | finalComma
  | finalCharacters
  | surrogateExpected
  deriving DecidableEq

/-- **A value that was not expected,** so far as an error names it. -/
inductive Found where
  | null
  | truth (b : Bool)
  | integer (digits : Text)
  | float (digits : Text)
  | string (t : Text)
  | list
  | object
  deriving DecidableEq

/-- **What makes JSON not what was asked for.**  What was expected is named by its text. -/
inductive Unsuitable where
  | kind (found : Found) (expected : Text)
  | value (found : Found) (expected : Text)
  | length (n : Nat) (expected : Text)
  | missing (key : Text)
  | duplicate (key : Text)
  deriving DecidableEq

/-- **What is wrong.** -/
inductive Cause where
  | unfinished (inside : Unfinished)
  | malformed (fault : Malformed)
  | unsuitable (fault : Unsuitable)
  deriving DecidableEq

def Unfinished.message : Unfinished → Text
  | .list => "EOF while parsing a list"
  | .object => "EOF while parsing an object"
  | .string => "EOF while parsing a string"
  | .value => "EOF while parsing a value"

def Malformed.message : Malformed → Text
  | .colonExpected => "expected `:`"
  | .listEndExpected => "expected `,` or `]`"
  | .objectEndExpected => "expected `,` or `\x7d`"
  | .wordExpected => "expected ident"
  | .valueExpected => "expected value"
  | .badEscape => "invalid escape"
  | .badNumber => "invalid number"
  | .numberTooGreat => "number out of range"
  | .controlCharacter => "control character (\\u0000-\\u001F) found while parsing a string"
  | .keyNotString => "key must be a string"
  | .loneSurrogate => "lone leading surrogate in hex escape"
  | .finalComma => "trailing comma"
  | .finalCharacters => "trailing characters"
  | .surrogateExpected => "unexpected end of hex escape"

/-- What a value is called in an error. -/
def Found.text : Found → Text
  | .null => "null"
  | .truth b => "boolean `" ++ (if b then "true".toList else "false".toList) ++ "`"
  | .integer digits => "integer `" ++ digits ++ "`"
  | .float digits => "floating point `" ++ digits ++ "`"
  | .string t => "string " ++ quotedText t
  | .list => "sequence"
  | .object => "map"

def Unsuitable.message : Unsuitable → Text
  | .kind found expected => "invalid type: " ++ found.text ++ ", expected " ++ expected
  | .value found expected => "invalid value: " ++ found.text ++ ", expected " ++ expected
  | .length n expected => "invalid length " ++ decimal n ++ ", expected " ++ expected
  | .missing key => "missing field `" ++ key ++ "`"
  | .duplicate key => "duplicate field `" ++ key ++ "`"

/-- The sentence that tells what is wrong. -/
def Cause.message : Cause → Text
  | .unfinished inside => inside.message
  | .malformed fault => fault.message
  | .unsuitable fault => fault.message

/-- **Where reading stopped, and why.** -/
structure Stop where
  cause : Cause
  /-- what was left of the text -/
  rest : Text
  /-- how many bytes of the rest belong to the error -/
  ahead : Nat

/-- The text ended too early. -/
def Stop.unfinished (inside : Unfinished) : Stop := ⟨.unfinished inside, [], 0⟩

/-- The next byte is wrong. -/
def Stop.atNext (fault : Malformed) (rest : Text) : Stop := ⟨.malformed fault, rest, 1⟩

/-- What has just been read is wrong. -/
def Stop.atLast (fault : Malformed) (rest : Text) : Stop := ⟨.malformed fault, rest, 0⟩

/-- What has just been read is not what was asked for. -/
def Stop.unsuitable (fault : Unsuitable) (rest : Text) : Stop := ⟨.unsuitable fault, rest, 0⟩

/-- **An error with its place:** a line, and the bytes of that line up to and with the error. -/
structure Error where
  cause : Cause
  line : Nat
  column : Nat
  deriving DecidableEq

/-- The line and the column that so many bytes of a text lead to. -/
def lineColumn : Text → Nat → Nat × Nat → Nat × Nat
  | [], _, here => here
  | c :: t, offset, (line, column) =>
    if offset < c.utf8Size then (line, column + offset)
    else lineColumn t (offset - c.utf8Size) (if c = '\n' then (line + 1, 0)
      else (line, column + c.utf8Size))

/-- **The error of a text whose reading stopped.** -/
def Stop.error (s : Stop) (text : Text) : Error :=
  let offset := min (utf8Length text) (utf8Length text - utf8Length s.rest + s.ahead)
  let (line, column) := lineColumn text offset (1, 0)
  ⟨s.cause, line, column⟩

/-- The sentence that tells what is wrong, and where. -/
def Error.message (e : Error) : Text :=
  e.cause.message ++ " at line " ++ decimal e.line ++ " column " ++ decimal e.column

end SignIn.Json
