import SignIn.Text.Basic
/-!
# Arguments

Arguments are switches and operands.  A switch is given by its long name behind `--` or by its letter
behind `-`; one that takes a value has it attached (`--text=x`, `-tx`, `-t=x`) or as the next argument.
`-` alone is an operand, and so is everything behind `--`.

A command line is read from its front, and where it asks for help, or is no longer understood, reading
halts.  What has been read until then counts all the same: a value that its switch does not take is
misuse, also in front of a call for help.
-/
namespace SignIn.CommandLine

/-- **A switch that a command knows.** -/
structure Switch where
  name : Text
  letter : Option Char
  /-- which values it takes; a flag takes none -/
  values : Option (Text → Bool)

/-- **What one place of a command line gives.** -/
inductive Given where
  | flag (name : Text)
  | value (name : Text) (value : Text)
  | operand (value : Text)
  deriving DecidableEq

/-- The switch that is given, and nothing for an operand. -/
def Given.name? : Given → Option Text
  | .flag name | .value name _ => some name
  | .operand _ => none

/-- **Why a command line is not carried out.** -/
inductive Halt where
  /-- it asks for help -/
  | help
  /-- it is no command line of this program -/
  | misuse
  deriving DecidableEq

/-- **A command line as far as it was read,** and why it was not read to its end. -/
structure Scan where
  given : List Given
  halt : Option Halt

/-- What a place gives, in front of the rest. -/
def Scan.cons (g : Given) (s : Scan) : Scan := { s with given := g :: s.given }

/-- Reading halts here. -/
def Scan.stop (halt : Halt) : Scan := ⟨[], some halt⟩

/-- Whether an argument can only be a switch, or the mark behind which there are none. -/
def looksLikeSwitch : Text → Bool
  | '-' :: _ :: _ => true
  | _ => false

/-- A text cut at its first equals sign, if it has one. -/
def cutAtEquals (t : Text) : Text × Option Text :=
  match t.dropWhile (· != '=') with
  | [] => (t, none)
  | _ :: value => (t.takeWhile (· != '='), some value)

/-- **A switch in an argument,** with the value attached to it. -/
structure Written where
  switch : Switch
  attached : Option Text

/-- The switch of the text behind `--`. -/
def longSwitch (known : List Switch) (t : Text) : Except Halt Written :=
  let (name, attached) := cutAtEquals t
  match known.find? (·.name == name) with
  | some s => .ok ⟨s, attached⟩
  | none => if name = "help" && attached.isNone then .error .help else .error .misuse

/-- The switch of a letter and the text behind it.  Every letter but the one for help takes a value. -/
def shortSwitch (known : List Switch) (letter : Char) (t : Text) : Except Halt Written :=
  match known.find? (·.letter == some letter) with
  | some s =>
    match t with
    | [] => .ok ⟨s, none⟩
    | '=' :: value => .ok ⟨s, some value⟩
    | value => .ok ⟨s, some value⟩
  | none => if letter = 'h' then .error .help else .error .misuse

/-- **An argument as a switch,** and nothing for an operand. -/
def switchOf (known : List Switch) (argument : Text) : Option (Except Halt Written) :=
  match argument with
  | '-' :: '-' :: t => some (longSwitch known t)
  | '-' :: letter :: t => some (shortSwitch known letter t)
  | _ => none

/-- **A command line is read** with the switches that are known. -/
def scan (known : List Switch) : List Text → Scan
  | [] => ⟨[], none⟩
  | argument :: rest =>
    if argument = "--" then ⟨rest.map .operand, none⟩
    else
      match switchOf known argument with
      | none => (scan known rest).cons (.operand argument)
      | some (.error halt) => .stop halt
      | some (.ok ⟨switch, attached⟩) =>
        match switch.values, attached with
        | none, none => (scan known rest).cons (.flag switch.name)
        | none, some _ => .stop .misuse
        | some _, some value => (scan known rest).cons (.value switch.name value)
        | some _, none =>
          match rest with
          | [] => .stop .misuse
          | value :: rest =>
            if looksLikeSwitch value then .stop .misuse
            else (scan known rest).cons (.value switch.name value)

/-- **What may be given:** values that their switches take, an operand if one is asked for. -/
def Given.fits (known : List Switch) (operand : Option (Text → Bool)) : Given → Bool
  | .flag _ => true
  | .value name v => known.any fun s => s.name == name && s.values.any (· v)
  | .operand v => operand.any (· v)

/-- **Each switch is given once,** and one operand. -/
def givenOnce (gs : List Given) : Bool := decide (gs.map Given.name?).Nodup

/-- **Whether a flag is given.** -/
def flagGiven (gs : List Given) (s : Switch) : Bool := gs.contains (.flag s.name)

/-- **The value given to a switch.** -/
def valueGiven (gs : List Given) (s : Switch) : Option Text :=
  gs.findSome? fun
    | .value name v => if name = s.name then some v else none
    | _ => none

/-- **The operand.** -/
def operandGiven (gs : List Given) : Option Text :=
  gs.findSome? fun
    | .operand v => some v
    | _ => none

/-- **The value given to a switch, as one of several,** or what is meant where none is given. -/
def choiceGiven {α : Type} (gs : List Given) (s : Switch) (choices : List (Text × α))
    (standard : α) : α :=
  ((valueGiven gs s).bind fun v => choices.lookup v).getD standard

/-- **A number of 64 bits,** with or without a plus sign. -/
def wordValue? (t : Text) : Option Nat :=
  let digits := match t with
    | '+' :: digits => digits
    | digits => digits
  if digits.isEmpty || !digits.all Char.isDigit || decide (Nat.pow 2 64 ≤ decimalValue digits) then none
  else some (decimalValue digits)

end SignIn.CommandLine
