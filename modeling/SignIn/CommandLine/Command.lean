import SignIn.CommandLine.Arguments
import SignIn.CommandLine.Input
import SignIn.Json.Record
import SignIn.Match.Trace
import SignIn.Message.Basic
import SignIn.Rules.Message
/-!
# Commands

A command line names a command and gives what the command asks for.  Every command has its own switches,
and what it does not ask for it refuses.
-/
namespace SignIn.CommandLine

/-- **When output is coloured.** -/
inductive ColorChoice where
  /-- on a terminal -/
  | auto
  | always
  | never
  deriving DecidableEq

/-- Whether output is coloured. -/
def ColorChoice.colored (c : ColorChoice) (terminal : Bool) : Bool :=
  match c with
  | .auto => terminal
  | .always => true
  | .never => false

/-- **What the program can be told to do.** -/
inductive Command where
  /-- read a message and write it as JSON -/
  | parse (input : InputChoice) (policy : AddressPolicy) (layout : Json.Layout) (color : ColorChoice)
  /-- read a message as JSON and write it as a message, read back before if that is asked for -/
  | format (input : InputChoice) (validate : Bool) (policy : AddressPolicy) (color : ColorChoice)
  /-- split a URI -/
  | uri (uri : Text) (layout : Json.Layout)
  /-- hash a text -/
  | keccak (input : InputChoice)
  /-- give an address its checksummed spelling, or only look whether it has it -/
  | erc55 (address : Text) (check : Bool)
  /-- match a text and show the run -/
  | trace (input : InputChoice) (rule : Text) (tree tally : Bool) (preview : Nat)
      (color : ColorChoice)
  /-- list the bundled grammar or one rule of it -/
  | dump (rule : Option Text) (color : ColorChoice)
  deriving DecidableEq

/-! ## Choices -/

def policies : List (Text × AddressPolicy) :=
  [("validate", .validate), ("convert", .convert), ("ignore", .ignore)]

def colorChoices : List (Text × ColorChoice) :=
  [("auto", .auto), ("always", .always), ("never", .never)]

/-! ## Switches -/

def flagSwitch (name : Text) : Switch := ⟨name, none, none⟩

/-- A switch that takes one of several values. -/
def choiceSwitch {α : Type} (name : Text) (choices : List (Text × α)) : Switch :=
  ⟨name, none, some fun v => (choices.lookup v).isSome⟩

def textSwitch : Switch := ⟨"text", some 't', some fun _ => true⟩

def policySwitch : Switch := choiceSwitch "address-policy" policies

def compactSwitch : Switch := flagSwitch "compact"

def validateSwitch : Switch := flagSwitch "validate"

def checkSwitch : Switch := flagSwitch "check"

def ruleSwitch : Switch := ⟨"rule", some 'r', some fun _ => true⟩

def treeSwitch : Switch := flagSwitch "ast"

def tallySwitch : Switch := flagSwitch "stats"

def previewSwitch : Switch := ⟨"max-phrase", none, some fun v => (wordValue? v).isSome⟩

def colorSwitch : Switch := choiceSwitch "color" colorChoices

/-! ## What a command line gives -/

/-- The input of a command. -/
def inputGiven (gs : List Given) : InputChoice := ⟨valueGiven gs textSwitch, operandGiven gs⟩

def policyGiven (gs : List Given) : AddressPolicy :=
  choiceGiven gs policySwitch policies .validate

def colorGiven (gs : List Given) : ColorChoice := choiceGiven gs colorSwitch colorChoices .auto

def layoutGiven (gs : List Given) : Json.Layout :=
  if flagGiven gs compactSwitch then .compact else .pretty

/-- How much of the input a trace shows ahead. -/
def previewGiven (gs : List Given) : Nat :=
  ((valueGiven gs previewSwitch).bind wordValue?).getD Trace.defaultPreview

/-! ## Commands by name -/

/-- **What a command asks for,** and the command that it makes up; none if its operand is lacking. -/
structure Form where
  switches : List Switch
  /-- which operands it takes -/
  operand : Option (Text → Bool)
  command : List Given → Option Command

/-- The operand of a command that works on a file: a file needs a name. -/
def fileOperand : Option (Text → Bool) := some fun v => !v.isEmpty

/-- An operand that may be any text. -/
def textOperand : Option (Text → Bool) := some fun _ => true

namespace Form

def parse : Form where
  switches := [textSwitch, policySwitch, compactSwitch, colorSwitch]
  operand := fileOperand
  command gs :=
    some (.parse (inputGiven gs) (policyGiven gs) (layoutGiven gs) (colorGiven gs))

def format : Form where
  switches := [textSwitch, validateSwitch, policySwitch, colorSwitch]
  operand := fileOperand
  command gs :=
    some (.format (inputGiven gs) (flagGiven gs validateSwitch) (policyGiven gs) (colorGiven gs))

def uri : Form where
  switches := [compactSwitch]
  operand := textOperand
  command gs := (operandGiven gs).map fun v => .uri v (layoutGiven gs)

def keccak : Form where
  switches := [textSwitch]
  operand := fileOperand
  command gs := some (.keccak (inputGiven gs))

def erc55 : Form where
  switches := [checkSwitch]
  operand := textOperand
  command gs := (operandGiven gs).map fun v => .erc55 v (flagGiven gs checkSwitch)

def trace : Form where
  switches := [textSwitch, ruleSwitch, treeSwitch, tallySwitch, previewSwitch, colorSwitch]
  operand := fileOperand
  command gs :=
    some (.trace (inputGiven gs) ((valueGiven gs ruleSwitch).getD Rules.firstPass)
      (flagGiven gs treeSwitch) (flagGiven gs tallySwitch) (previewGiven gs) (colorGiven gs))

def dump : Form where
  switches := [ruleSwitch, colorSwitch]
  operand := none
  command gs := some (.dump (valueGiven gs ruleSwitch) (colorGiven gs))

/-- The command of a name. -/
def ofName? (name : Text) : Option Form :=
  ([("parse", parse), ("format", format), ("uri", uri), ("keccak", keccak), ("erc55", erc55),
    ("trace", trace), ("dump", dump)] : List (Text × Form)).lookup name

/-- **Whether a command may be given all this.** -/
def admits (form : Form) (gs : List Given) : Bool :=
  gs.all (Given.fits form.switches form.operand) && givenOnce gs

/-- **The command of the arguments behind its name.**  What was read has to be admissible before a call
for help is heard, and nothing may be lacking where there is none. -/
def read (form : Form) (arguments : List Text) : Except Halt Command :=
  let s := scan form.switches arguments
  if form.admits s.given then
    match s.halt, form.command s.given with
    | some halt, _ => .error halt
    | none, some c => .ok c
    | none, none => .error .misuse
  else .error .misuse

end Form

/-- Help for the whole program or one of its commands, by the word `help`. -/
def helpWith (arguments : List Text) : Halt :=
  match arguments with
  | [] => .help
  | [name] => if name = "help" || (Form.ofName? name).isSome then .help else .misuse
  | _ => .misuse

/-- **The command of a command line.** -/
def Command.ofArguments (arguments : List Text) : Except Halt Command :=
  match arguments with
  | [] => .error .misuse
  | name :: rest =>
    match Form.ofName? name with
    | some form => form.read rest
    | none =>
      if name = "help" then .error (helpWith rest)
      else if name = "--help" || name.take 2 = "-h" then .error .help
      else .error .misuse

end SignIn.CommandLine
