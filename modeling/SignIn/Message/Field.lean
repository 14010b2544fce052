import SignIn.Message.Basic
/-!
# The fields of a message, one by one

A field has a name, a type of values, and perhaps a value that its absence stands for.  A message can be
taken apart by its fields and put together from them, in any order, which is how it is written to a
record and read back.
-/
namespace SignIn

/-- **The fields of a message.** -/
inductive Field where
  | scheme
  | domain
  | address
  | statement
  | uri
  | version
  | chainId
  | nonce
  | issuedAt
  | expirationTime
  | notBefore
  | requestId
  | resources
  deriving DecidableEq

namespace Field

/-- The fields in the order in which a message lists them. -/
def all : List Field :=
  [scheme, domain, address, statement, uri, version, chainId, nonce, issuedAt, expirationTime,
    notBefore, requestId, resources]

/-- The key of a field in a record. -/
def key : Field → Text
  | scheme => "scheme"
  | domain => "domain"
  | address => "address"
  | statement => "statement"
  | uri => "uri"
  | version => "version"
  | chainId => "chainId"
  | nonce => "nonce"
  | issuedAt => "issuedAt"
  | expirationTime => "expirationTime"
  | notBefore => "notBefore"
  | requestId => "requestId"
  | resources => "resources"

/-- The field of a key. -/
def ofKey? (key : Text) : Option Field := all.find? fun f => f.key == key

/-- **The values of a field.** -/
@[reducible] def Value : Field → Type
  | domain | address | uri | nonce | issuedAt => Text
  | scheme | statement | expirationTime | notBefore | requestId => Option Text
  | version => Version
  | chainId => ChainId
  | resources => Option (List Text)

/-- **The value that a field's absence stands for,** where it may be absent. -/
def absent? : (f : Field) → Option f.Value
  | scheme | statement | expirationTime | notBefore | requestId | resources => some none
  | domain | address | uri | version | chainId | nonce | issuedAt => none

end Field

/-- The value of a field. -/
def Message.get (m : Message) : (f : Field) → f.Value
  | .scheme => m.scheme
  | .domain => m.domain
  | .address => m.address
  | .statement => m.statement
  | .uri => m.uri
  | .version => m.version
  | .chainId => m.chainId
  | .nonce => m.nonce
  | .issuedAt => m.issuedAt
  | .expirationTime => m.expirationTime
  | .notBefore => m.notBefore
  | .requestId => m.requestId
  | .resources => m.resources

/-- **A message of which some fields are known.** -/
def Draft := (f : Field) → Option f.Value

namespace Draft

/-- Nothing is known. -/
def empty : Draft := fun _ => none

/-- One more field is known. -/
def set (d : Draft) (f : Field) (v : f.Value) : Draft := fun g =>
  if h : f = g then some (h ▸ v) else d g

/-- A field that is known, or may be absent. -/
def require (d : Draft) (f : Field) : Except Field f.Value :=
  match d f <|> f.absent? with
  | some v => .ok v
  | none => .error f

/-- **The message of a draft,** or the first field that it lacks. -/
def message (d : Draft) : Except Field Message := do
  return {
    scheme := ← d.require .scheme, domain := ← d.require .domain
    address := ← d.require .address, statement := ← d.require .statement
    uri := ← d.require .uri, version := ← d.require .version, chainId := ← d.require .chainId
    nonce := ← d.require .nonce, issuedAt := ← d.require .issuedAt
    expirationTime := ← d.require .expirationTime, notBefore := ← d.require .notBefore
    requestId := ← d.require .requestId, resources := ← d.require .resources }

end Draft

end SignIn
