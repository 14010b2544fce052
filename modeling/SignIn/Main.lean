import SignIn.CommandLine.Run
/-!
# The program

Reads what the command line asks for, carries the command out, and writes what it wrote.
-/
namespace SignIn.CommandLine

/-- The text of some bytes. -/
def textOfBytes (bytes : ByteArray) : Except ReadFailure Text :=
  match String.fromUTF8? bytes with
  | some s => .ok s.toList
  | none => .error .notText

/-- Why a file could not be read. -/
def failureOf (e : IO.Error) : ReadFailure :=
  match e with
  | .noFileOrDirectory .. => .notFound
  | .inappropriateType _ code _ => if code = 21 then .isDirectory else .notDirectory
  | .invalidArgument _ 36 _ => .nameTooLong
  | .permissionDenied .. => .other "Permission denied (os error 13)"
  | e => .other (toString e)

/-- Reads an origin to its end. -/
def fetch (origin : Origin) : IO (Except ReadFailure Text) := do
  try
    match origin with
    | .stdin => return textOfBytes (← (← IO.getStdin).readBinToEnd)
    | .file path => return textOfBytes (← IO.FS.readBinFile (String.ofList path))
  catch e => return .error (failureOf e)

end SignIn.CommandLine

open SignIn SignIn.CommandLine in
/-- Carries out a command line and returns its code. -/
def main (arguments : List String) : IO UInt32 := do
  let output ← IO.getStdout
  let errors ← IO.getStderr
  let outputIsTerminal ← output.isTty
  let errorsIsTerminal ← errors.isTty
  let terminal := outputIsTerminal && errorsIsTerminal
  let outcome ← match Command.ofArguments (arguments.map String.toList) with
    | .error halt => pure (Outcome.ofHalt halt)
    | .ok command =>
      match command.origin? with
      | none => pure (command.run (fun _ => .error .notFound) terminal)
      | some origin =>
        let text ← fetch origin
        pure (command.run (fun _ => text) terminal)
  output.putStr (String.ofList outcome.output)
  errors.putStr (String.ofList outcome.errors)
  return outcome.code.toUInt32
