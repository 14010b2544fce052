import SignIn.Text.Basic
/-!
# The input of a command

A command that works on a text is given it on the command line, or in a file, or on standard input.
Text on the command line is used as it is and has no name.  A file or standard input has a name, and
where it stands for a message its last line feed is dropped: editors and shells end a file with one for
which a message has no place.
-/
namespace SignIn.CommandLine

/-- **Where the input of a command may be.** -/
structure InputChoice where
  /-- the text on the command line -/
  text : Option Text
  /-- a file, or `-` for standard input -/
  path : Option Text
  deriving DecidableEq

/-- **What has to be read for it.** -/
inductive Origin where
  | stdin
  | file (path : Text)
  deriving DecidableEq

/-- **Why nothing could be read.** -/
inductive ReadFailure where
  /-- the bytes are no UTF-8 -/
  | notText
  | notFound
  | isDirectory
  | notDirectory
  | nameTooLong
  /-- another reason, in its own words -/
  | other (reason : Text)
  deriving DecidableEq

/-- The sentence that tells why. -/
def ReadFailure.message : ReadFailure → Text
  | .notText => "stream did not contain valid UTF-8"
  | .notFound => "No such file or directory (os error 2)"
  | .isDirectory => "Is a directory (os error 21)"
  | .notDirectory => "Not a directory (os error 20)"
  | .nameTooLong => "File name too long (os error 36)"
  | .other reason => reason

/-- **How an origin is read.** -/
abbrev Reader := Origin → Except ReadFailure Text

/-- **A text to work on,** and the name that diagnostics show for it. -/
structure Input where
  text : Text
  name : Option Text
  deriving DecidableEq

/-- The name of what is read. -/
def Origin.name : Origin → Text
  | .stdin => "<stdin>"
  | .file path => path

/-- What is said of an origin that could not be read. -/
def Origin.failure (o : Origin) (e : ReadFailure) : Text :=
  match o with
  | .stdin => "failed to read stdin: " ++ e.message
  | .file path => "failed to read '" ++ path ++ "': " ++ e.message

namespace InputChoice

/-- **What has to be read:** nothing if the text is on the command line. -/
def origin? (i : InputChoice) : Option Origin :=
  match i.text, i.path with
  | some _, _ | none, none => none
  | none, some path => some (if path = "-" then .stdin else .file path)

/-- **The input as it is,** or what is said for want of it. -/
def read (i : InputChoice) (reader : Reader) : Except Text Input :=
  match i.text, i.origin? with
  | some t, _ => .ok ⟨t, none⟩
  | none, some o =>
    match reader o with
    | .ok t => .ok ⟨t, some o.name⟩
    | .error e => .error (o.failure e)
  | none, none => .error "input is required: use positional argument or -t/--text".toList

/-- A text without the line feed at its end. -/
def withoutFinalNewline (t : Text) : Text := if t.getLast? = some '\n' then t.dropLast else t

/-- **The input as a message.** -/
def load (i : InputChoice) (reader : Reader) : Except Text Input := do
  let input ← i.read reader
  return if input.name.isSome then { input with text := withoutFinalNewline input.text } else input

end InputChoice
end SignIn.CommandLine
