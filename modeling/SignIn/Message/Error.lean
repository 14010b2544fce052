import SignIn.Match.Error
import SignIn.Message.Basic
/-!
# What is wrong with a message

A message is refused for its lines (one that must be there is not, or the structure ends early) or
for one of its fields.  A span counts bytes of the message.
-/
namespace SignIn

/-- **A stretch of a text,** in bytes from its beginning; `stop` is the first byte after it. -/
structure Span where
  start : Nat
  stop : Nat
  deriving DecidableEq

/-- **How a field fails.** -/
inductive FieldFault where
  | scheme
  | domain
  | address
  /-- the address is one, but not in its checksummed spelling -/
  | notChecksummed
  | statement
  | uri
  | version
  | chainId
  /-- a number that does not read as one -/
  | notANumber
  /-- a number that is too great -/
  | infinity
  | nonce
  /-- the time of the line with this label -/
  | dateTime (line : Text)
  | requestId
  /-- the resource at this place of the list -/
  | resource (index : Nat)
  deriving DecidableEq

/-- What comes before the value of a field that fails. -/
def FieldFault.lead : FieldFault → Text
  | .scheme => "invalid scheme: "
  | .domain => "invalid domain: "
  | .address => "invalid address: "
  | .notChecksummed => "invalid ERC-55 format address: 'validate' specified, MUST be ERC55-conformant: "
  | .statement => "invalid statement: "
  | .uri => "invalid URI: "
  | .version => "invalid Version: "
  | .chainId => "invalid Chain ID: "
  | .notANumber => "invalid integer: not a number: "
  | .infinity => "invalid integer: Infinity: "
  | .nonce => "invalid Nonce: "
  | .dateTime line => "invalid date time: " ++ line ++ " not date time string format: "
  | .requestId => "invalid Request ID: "
  | .resource index => "invalid resource URI [" ++ decimal index ++ "]: "

/-- **Why a text is no message:** the first failure found. -/
inductive MessageError where
  /-- a required line does not begin as it must, at a byte offset -/
  | missingLine (line : RequiredLine) (offset : Nat)
  /-- the structure goes no further than a byte offset -/
  | malformed (offset : Nat)
  /-- a field fails -/
  | field (fault : FieldFault) (value : Text) (span : Span)
  /-- the matcher broke off, which no text can cause -/
  | engine (error : MatchError)
  deriving DecidableEq

namespace MessageError

/-- The sentence that tells of the error. -/
def message : MessageError → Text
  | .missingLine line _ =>
    "invalid siwe message: " ++ line.label ++ " missing or invalid prefix \"" ++ line.lead ++ "\""
  | .malformed _ =>
    "invalid siwe message: carefully check message syntax, especially after required \"Issued At: \""
  | .field fault value _ => fault.lead ++ value
  | .engine error => error.message

/-- **Where the failure is,** if it is anywhere in the message. -/
def span? : MessageError → Option Span
  | .missingLine _ offset | .malformed offset => some ⟨offset, offset⟩
  | .field _ _ span => some span
  | .engine _ => none

/-- Whether the matcher is at fault, not the message. -/
def isEngine : MessageError → Bool
  | .engine _ => true
  | _ => false

end MessageError
end SignIn
