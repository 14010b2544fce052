import SignIn.Match.Action
import SignIn.Match.Parse
import SignIn.Message.Error
import SignIn.Rules.Bundled
/-!
# Cutting a message into its fields

The callbacks of the structural rules note each field with its place in the message, as its rule
succeeds, and note the first required line that does not begin as it must.  Notes are never taken
back; a field noted twice keeps the later note.
-/
namespace SignIn

/-- **A field as it stands in the message,** with its first byte. -/
structure Capture where
  text : Text
  start : Nat
  deriving DecidableEq

/-- The byte at which the character at an offset begins. -/
def byteOffset (input : Array Char) (offset : Nat) : Nat := utf8Length (phraseText input 0 offset)

namespace Capture

/-- The `length` characters from an offset on, as a field. -/
def ofInput (input : Array Char) (offset length : Nat) : Capture :=
  ⟨phraseText input offset length, byteOffset input offset⟩

/-- Where the field stands. -/
def span (c : Capture) : Span := ⟨c.start, c.start + utf8Length c.text⟩

/-- The error of a field that fails. -/
def fail (c : Capture) (fault : FieldFault) : MessageError := .field fault c.text c.span

end Capture

/-- **The fields noted so far.** -/
structure MessageCapture where
  scheme : Option Capture
  domain : Option Capture
  address : Option Capture
  statement : Option Capture
  uri : Option Capture
  version : Option Capture
  chainId : Option Capture
  nonce : Option Capture
  issuedAt : Option Capture
  expirationTime : Option Capture
  notBefore : Option Capture
  requestId : Option Capture
  resources : Option (List Capture)
  /-- the first required line that did not begin as it must, and its byte -/
  missing : Option (RequiredLine × Nat)
  deriving DecidableEq

namespace MessageCapture

/-- Nothing noted. -/
def empty : MessageCapture :=
  { scheme := none, domain := none, address := none, statement := none, uri := none
    version := none, chainId := none, nonce := none, issuedAt := none, expirationTime := none
    notBefore := none, requestId := none, resources := none, missing := none }

/-- **Notes a line,** by what is done with the field. -/
def onLine (put : Capture → MessageCapture → MessageCapture) : Callback MessageCapture :=
  .onMatch fun input offset length => put (.ofInput input offset length)

/-- Notes the scheme, without the `://` that its rule reads. -/
def onScheme : Callback MessageCapture :=
  .onMatch fun input offset length c =>
    { c with scheme := some (.ofInput input offset (length - 3)) }

/-- **Notes the request id,** which may be empty. -/
def onRequestId : Callback MessageCapture :=
  .onSuccess fun input offset length c =>
    { c with requestId := some (.ofInput input offset length) }

/-- **The list of resources begins empty.** -/
def onResources : Callback MessageCapture := .onEntry fun c => { c with resources := some [] }

/-- Notes a resource, without the `- ` that its rule reads. -/
def onResource : Callback MessageCapture :=
  .onMatch fun input offset length c =>
    let resource := Capture.ofInput input (offset + 2) (length - 2)
    { c with resources := some (c.resources.getD [] ++ [resource]) }

/-- **A statement line without a statement** is the empty statement on that line. -/
def onEmptyStatement : Callback MessageCapture :=
  .onMatch fun input offset _ c => { c with statement := some (.ofInput input (offset + 1) 0) }

/-- Without a statement line there is no statement. -/
def onNoStatement : Callback MessageCapture := .onMatch fun _ _ _ c => { c with statement := none }

/-- **Notes a required line that does not begin as it must,** if it is the first. -/
def onLead (line : RequiredLine) : Callback MessageCapture := fun p input offset c =>
  match p.state with
  | .noMatch | .emptyMatch =>
    (p, { c with missing := some (c.missing.getD (line, byteOffset input offset)) })
  | .active | .matched => (p, c)

/-- **The callbacks of the structural rules,** by the names of the rules. -/
def actions : List (Text × Callback MessageCapture) := [
  ("ffscheme", onScheme),
  ("fdomain", onLine fun f c => { c with domain := some f }),
  ("faddress", onLine fun f c => { c with address := some f }),
  ("fstatement", onLine fun f c => { c with statement := some f }),
  ("furi", onLine fun f c => { c with uri := some f }),
  ("fversion", onLine fun f c => { c with version := some f }),
  ("fchain-id", onLine fun f c => { c with chainId := some f }),
  ("fnonce", onLine fun f c => { c with nonce := some f }),
  ("fissued-at", onLine fun f c => { c with issuedAt := some f }),
  ("fexpiration-time", onLine fun f c => { c with expirationTime := some f }),
  ("fnot-before", onLine fun f c => { c with notBefore := some f }),
  ("frequest-id", onRequestId),
  ("fresources", onResources),
  ("fresource", onResource),
  ("empty-statement", onEmptyStatement),
  ("no-statement", onNoStatement),
  ("pre-uri", onLead .uri),
  ("pre-version", onLead .version),
  ("pre-chain-id", onLead .chainId),
  ("pre-nonce", onLead .nonce),
  ("pre-issued-at", onLead .issuedAt)]

end MessageCapture

/-- **The bundled grammar with the callbacks of the structural rules.** -/
def messageMatcher (counter : Counter := .exact) : Matcher MessageCapture :=
  ((Matcher.bare bundledGrammar counter).bindAll MessageCapture.actions).toOption.getD
    (.bare bundledGrammar counter)

/-- **A message cut into its fields,** none of them judged yet. -/
structure Fields where
  scheme : Option Capture
  domain : Capture
  address : Capture
  statement : Option Capture
  uri : Capture
  version : Capture
  chainId : Capture
  nonce : Capture
  issuedAt : Capture
  expirationTime : Option Capture
  notBefore : Option Capture
  requestId : Option Capture
  resources : Option (List Capture)
  deriving DecidableEq

/-- The fields that were noted, if all that a message must have were. -/
def MessageCapture.fields? (c : MessageCapture) : Option Fields := do
  let domain ← c.domain
  let address ← c.address
  let uri ← c.uri
  let version ← c.version
  let chainId ← c.chainId
  let nonce ← c.nonce
  let issuedAt ← c.issuedAt
  return {
    scheme := c.scheme, domain := domain, address := address, statement := c.statement, uri := uri
    version := version, chainId := chainId, nonce := nonce, issuedAt := issuedAt
    expirationTime := c.expirationTime, notBefore := c.notBefore, requestId := c.requestId
    resources := c.resources }

/-- **What a match of the structural rules comes to.**  A missing line is told before anything else; a
text that does not match is told by how far its structure went. -/
def Fields.ofParsed (input : Array Char) (parsed : Parsed MessageCapture Unit) :
    Except MessageError Fields :=
  match parsed.result, parsed.data.missing with
  | .error e, _ => .error (.engine e)
  | .ok _, some (line, offset) => .error (.missingLine line offset)
  | .ok report, none =>
    match report.success, parsed.data.fields? with
    | true, some fields => .ok fields
    | _, _ => .error (.malformed (byteOffset input report.reach))

/-- **A text cut into fields.** -/
def Fields.ofText (text : Text) (counter : Counter := .exact) : Except MessageError Fields :=
  Fields.ofParsed text.toArray ((messageMatcher counter).parse Rules.firstPass text.toArray .empty)

end SignIn
