import SignIn.Message.Basic
/-!
# Writing a message

The lines of a message in their order.  Fields are written as they are, whatever they hold.  An empty
scheme and an empty time are not written; an empty statement, request id or list of resources is,
which is how it is told from an absent one.
-/
namespace SignIn

/-- The part of a text that an optional field adds. -/
def optionalPart (write : Text → Text) : Option Text → Text
  | some t => write t
  | none => []

/-- The part that an optional field adds if it is not empty. -/
def filledPart (write : Text → Text) (t : Option Text) : Text :=
  optionalPart write (t.filter fun t => !t.isEmpty)

/-- A resource on a line of its own. -/
def resourceLine (r : Text) : Text := "\n- " ++ r

/-- The list of resources, be it empty. -/
def resourcesPart : Option (List Text) → Text
  | some rs => "\nResources:" ++ rs.flatMap resourceLine
  | none => []

/-- **The layout of a message,** with an address and the digits of a chain id in place of its own. -/
def Message.wireWith (m : Message) (address chainId : Text) : Text :=
  filledPart (· ++ "://") m.scheme ++
    m.domain ++ " wants you to sign in with your Ethereum account:\n" ++
    address ++ "\n\n" ++
    optionalPart (· ++ "\n") m.statement ++ "\n" ++
    RequiredLine.uri.lead ++ m.uri ++ "\n" ++
    RequiredLine.version.lead ++ decimal m.version.val ++ "\n" ++
    RequiredLine.chainId.lead ++ chainId ++ "\n" ++
    RequiredLine.nonce.lead ++ m.nonce ++ "\n" ++
    RequiredLine.issuedAt.lead ++ m.issuedAt ++
    filledPart ("\nExpiration Time: " ++ ·) m.expirationTime ++
    filledPart ("\nNot Before: " ++ ·) m.notBefore ++
    optionalPart ("\nRequest ID: " ++ ·) m.requestId ++
    resourcesPart m.resources

/-- **The text of a message.** -/
def Message.wire (m : Message) : Text := m.wireWith m.address (decimal m.chainId.val)

end SignIn
