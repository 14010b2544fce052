import SignIn.Address
import SignIn.DateTime
import SignIn.Message.Capture
import SignIn.Uri.Matcher
/-!
# Reading a message

A text is cut into fields, and then each field is judged in the order of the message; the first that
fails is the error.  A field that may be empty is judged only if it is not.

Whatever is counted by a match is counted exactly unless another counter is given.
-/
namespace SignIn

/-- **A field has to match its rule.** -/
def Capture.require (c : Capture) (rule : Text) (fault : FieldFault) (counter : Counter := .exact) :
    Except MessageError Unit :=
  match matchesRule rule c.text counter with
  | .ok true => .ok ()
  | .ok false => .error (c.fail fault)
  | .error e => .error (.engine e)

/-- A field has to be a URI. -/
def Capture.requireUri (c : Capture) (fault : FieldFault) (counter : Counter := .exact) :
    Except MessageError Unit :=
  if (splitUri? c.text counter).isSome then .ok () else .error (c.fail fault)

/-- **A time has to have the shape of a date-time and to exist.** -/
def Capture.requireDateTime (c : Capture) (line : Text) (counter : Counter := .exact) :
    Except MessageError Unit := do
  c.require "date-time" (.dateTime line) counter
  if isDateTime c.text then return () else throw (c.fail (.dateTime line))

/-- **An address has to be one, and is treated as the policy says.** -/
def Capture.addressUnder (c : Capture) (policy : AddressPolicy) (counter : Counter := .exact) :
    Except MessageError Text := do
  c.require "address" .address counter
  match policy with
  | .validate => if isChecksummed c.text then return c.text else throw (c.fail .notChecksummed)
  | .convert =>
    match checksummed c.text with
    | .ok spelling => return spelling
    | .error _ => throw (c.fail .address)
  | .ignore => return c.text

/-- **A field read as a number below a bound.** -/
def Capture.number (c : Capture) (bound : Nat) : Except MessageError (Fin bound) :=
  if c.text.isEmpty || !c.text.all Char.isDigit then .error (c.fail .notANumber)
  else if h : decimalValue c.text < bound then .ok ⟨decimalValue c.text, h⟩
  else .error (c.fail .infinity)

/-- A field that may be absent is judged if it is there. -/
def Capture.whenPresent (c : Option Capture) (judge : Capture → Except MessageError Unit) :
    Except MessageError Unit :=
  match c with
  | some c => judge c
  | none => .ok ()

/-- A field that may be absent or empty is judged if it is neither. -/
def Capture.whenFilled (c : Option Capture) (judge : Capture → Except MessageError Unit) :
    Except MessageError Unit :=
  Capture.whenPresent c fun c => if c.text.isEmpty then .ok () else judge c

/-- **Resources have to be URIs;** the first that is not is the error. -/
def Capture.requireResources (index : Nat) (resources : List Capture) (counter : Counter := .exact) :
    Except MessageError Unit :=
  match resources with
  | [] => .ok ()
  | c :: cs => do
    c.requireUri (.resource index) counter
    Capture.requireResources (index + 1) cs counter

/-- **The message of the fields,** judged in order. -/
def Fields.judge (f : Fields) (policy : AddressPolicy) (counter : Counter := .exact) :
    Except MessageError Message := do
  Capture.whenPresent f.scheme (·.require "scheme" .scheme counter)
  f.domain.require "authority" .domain counter
  let address ← f.address.addressUnder policy counter
  Capture.whenFilled f.statement (·.require "statement" .statement counter)
  f.uri.requireUri .uri counter
  f.version.require "version" .version counter
  let version ← f.version.number (.pow 2 32)
  f.chainId.require "chain-id" .chainId counter
  let chainId ← f.chainId.number (.pow 2 128)
  f.nonce.require "nonce" .nonce counter
  f.issuedAt.requireDateTime "Issued At" counter
  Capture.whenPresent f.expirationTime (·.requireDateTime "Expiration Time" counter)
  Capture.whenPresent f.notBefore (·.requireDateTime "Not Before" counter)
  Capture.whenFilled f.requestId (·.require "request-id" .requestId counter)
  Capture.requireResources 0 (f.resources.getD []) counter
  return {
    scheme := f.scheme.map Capture.text, domain := f.domain.text, address := address
    statement := f.statement.map Capture.text, uri := f.uri.text, version := version
    chainId := chainId, nonce := f.nonce.text, issuedAt := f.issuedAt.text
    expirationTime := f.expirationTime.map Capture.text
    notBefore := f.notBefore.map Capture.text, requestId := f.requestId.map Capture.text
    resources := f.resources.map fun rs => rs.map Capture.text }

/-- **The message of a text** under an address policy. -/
def Message.parse (text : Text) (policy : AddressPolicy) (counter : Counter := .exact) :
    Except MessageError Message := do
  let fields ← Fields.ofText text counter
  fields.judge policy counter

end SignIn
