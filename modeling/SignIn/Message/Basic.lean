import SignIn.Text.Basic
/-!
# Sign-in messages

The message by which an account signs in to a site (ERC-4361), as its fields.  An absent line is told
from an empty one: a statement and a request id may be empty, and a list of resources may be.
-/
namespace SignIn

/-- **A version is a number of 32 bits.** -/
abbrev Version := Fin (.pow 2 32)

/-- **A chain id is a number of 128 bits.** -/
abbrev ChainId := Fin (.pow 2 128)

/-- **The fields of a sign-in message,** in the order in which it lists them. -/
structure Message where
  scheme : Option Text
  domain : Text
  address : Text
  statement : Option Text
  uri : Text
  version : Version
  chainId : ChainId
  nonce : Text
  issuedAt : Text
  expirationTime : Option Text
  notBefore : Option Text
  requestId : Option Text
  resources : Option (List Text)
  deriving DecidableEq

/-- **What becomes of an address that is not checksummed.** -/
inductive AddressPolicy where
  /-- it is refused -/
  | validate
  /-- it is rewritten in its checksummed spelling -/
  | convert
  /-- it is kept -/
  | ignore
  deriving DecidableEq

/-- **The policy of a name;** a name that is no policy's means that addresses are kept. -/
def AddressPolicy.ofName (name : Text) : AddressPolicy :=
  if name = "validate" then .validate else if name = "convert" then .convert else .ignore

/-- **The lines a message must have,** apart from the first two. -/
inductive RequiredLine where
  | uri
  | version
  | chainId
  | nonce
  | issuedAt
  deriving DecidableEq

namespace RequiredLine

/-- What a line is called. -/
def label : RequiredLine → Text
  | .uri => "URI"
  | .version => "Version"
  | .chainId => "Chain ID"
  | .nonce => "Nonce"
  | .issuedAt => "Issued At"

/-- **A required line begins with its label, a colon and a blank.** -/
def lead (line : RequiredLine) : Text := line.label ++ ": "

end RequiredLine

end SignIn
