import SignIn.Address
import SignIn.CommandLine.Command
import SignIn.Diagnostic
import SignIn.Grammar.Listing
import SignIn.Match.Json
import SignIn.Match.Tally
import SignIn.Match.Tree
import SignIn.Message.Json
import SignIn.Message.Parser
import SignIn.Message.Printer
import SignIn.Message.Watch
import SignIn.Uri.Json
import SignIn.Uri.Matcher
/-!
# Carrying out a command

A command takes its input, and ends with a code and with what it wrote to its two outputs.  The code is 0
for success, 1 where the input is refused or cannot be read, and 2 for a misused command line and for a
fault of the matcher itself.  Nothing here reads or writes: the reader of origins is an argument.
-/
namespace SignIn.CommandLine

/-- **How a command ends.** -/
structure Outcome where
  code : Nat
  output : Text
  errors : Text
  deriving DecidableEq

namespace Outcome

/-- A line of output. -/
def line (t : Text) : Outcome := ⟨0, t ++ "\n", []⟩

/-- A failure, told in one line. -/
def fail (message : Text) : Outcome := ⟨1, [], "error: " ++ message ++ "\n"⟩

/-- The end of a command line that is not carried out. -/
def ofHalt : Halt → Outcome
  | .help => ⟨0, [], []⟩
  | .misuse => ⟨2, [], []⟩

end Outcome

/-- What is done with an input that can be read. -/
def withInput (input : Except Text Input) (work : Input → Outcome) : Outcome :=
  match input with
  | .ok i => work i
  | .error message => .fail message

/-- **An error of a message, shown in its text.** -/
def refused (e : MessageError) (input : Input) (colored : Bool) : Outcome :=
  let shown := (e.diagnostic (some input.text) input.name).render colored
  ⟨if e.isEngine then 2 else 1, [], shown ++ "\n"⟩

/-- What is done with what was made of an input, unless that is an error. -/
def orRefused {α : Type} (result : Except MessageError α) (input : Input) (colored : Bool)
    (work : α → Outcome) : Outcome :=
  match result with
  | .ok x => work x
  | .error e => refused e input colored

/-- The message of a text, as JSON. -/
def runParse (input : Input) (policy : AddressPolicy) (layout : Json.Layout) (colored : Bool) :
    Outcome :=
  orRefused (Message.parse input.text policy) input colored fun m => .line (m.record.text layout)

/-- The text of a message given as JSON. -/
def runFormat (input : Input) (validate : Bool) (policy : AddressPolicy) (colored : Bool) :
    Outcome :=
  match Message.ofJson input.text with
  | .error e => .fail ("invalid message object: " ++ e.message)
  | .ok m =>
    let judged := if validate then (Message.parse m.wire policy).map fun _ => () else .ok ()
    orRefused judged ⟨m.wire, none⟩ colored fun _ => .line m.wire

/-- The parts of a URI, as JSON. -/
def runUri (uri : Text) (layout : Json.Layout) : Outcome :=
  match splitUri? uri with
  | some parts => .line (parts.record.text layout)
  | none => .fail ("not a valid URI: " ++ uri)

/-- The hash of a text. -/
def runKeccak (input : Input) : Outcome :=
  match hashText input.text with
  | .ok digest => .line digest
  | .error e => .fail e.message

/-- The checksummed spelling of an address; asked only to look, nothing is written for one that has
it. -/
def runErc55 (address : Text) (check : Bool) : Outcome :=
  if check then
    if isChecksummed address then ⟨0, [], []⟩
    else .fail (address ++ " is not ERC-55 checksummed")
  else
    match checksummed address with
    | .ok spelling => .line spelling
    | .error e => .fail e.message

/-- What is said of a name that is no rule's. -/
def unknownRule (name : Text) : Outcome := .fail ("unknown rule '" ++ name ++ "'")

/-- The line between two parts of the output. -/
def divider : Styled := paint .faint "---" ++ plain "\n"

/-- **A match and what was seen of it:** the trace, then what else is asked for, then the report. -/
def runTrace (input : Input) (rule : Text) (tree tally : Bool) (preview : Nat) (colored : Bool) :
    Outcome :=
  let g := bundledGrammar
  if (g.ruleId? rule).isNone then unknownRule rule
  else
    let watch : Watcher (Trace × Tree × Tally) :=
      .both (Trace.watch g preview) (.both (Tree.watch (.everything g)) Tally.watch)
    let (result, trace, nodes, counts) :=
      watchRule watch rule input.text.toArray (.empty, .empty, .empty g)
    match result with
    | .error e => ⟨2, trace.listing.render colored, "runtime error: " ++ e.message ++ "\n"⟩
    | .ok report =>
      let shown : Styled :=
        trace.listing ++ (if tree then divider ++ plain (nodes.listing g) else []) ++
          (if tally then divider ++ counts.listing g else []) ++
          divider ++ plain (report.record.text .pretty ++ "\n")
      ⟨if report.success then 0 else 1, shown.render colored, []⟩

/-- The listing of the bundled grammar, or of one rule. -/
def runDump (rule : Option Text) (colored : Bool) : Outcome :=
  match rule with
  | none => ⟨0, bundledGrammar.listing.render colored, []⟩
  | some name =>
    match (bundledGrammar.ruleId? name).bind fun id => bundledGrammar.rules[id.index]? with
    | some r => ⟨0, (bundledGrammar.ruleListing r).render colored, []⟩
    | none => unknownRule name

/-- **A command carried out,** by a reader of origins, with or without a terminal. -/
def Command.run (c : Command) (reader : Reader) (terminal : Bool) : Outcome :=
  match c with
  | .parse input policy layout color =>
    withInput (input.load reader) fun i => runParse i policy layout (color.colored terminal)
  | .format input validate policy color =>
    withInput (input.load reader) fun i => runFormat i validate policy (color.colored terminal)
  | .uri text layout => runUri text layout
  | .keccak input => withInput (input.read reader) runKeccak
  | .erc55 address check => runErc55 address check
  | .trace input rule tree tally preview color =>
    withInput (input.load reader) fun i =>
      runTrace i rule tree tally preview (color.colored terminal)
  | .dump rule color => runDump rule (color.colored terminal)

/-- What a command has to read. -/
def Command.origin? : Command → Option Origin
  | .parse input .. | .format input .. | .keccak input | .trace input .. => input.origin?
  | .uri .. | .erc55 .. | .dump .. => none

/-- **A command line carried out.** -/
def run (arguments : List Text) (reader : Reader) (terminal : Bool) : Outcome :=
  match Command.ofArguments arguments with
  | .ok c => c.run reader terminal
  | .error halt => .ofHalt halt

end SignIn.CommandLine
