import SignIn.Text.Basic
/-!
# The parts of a URI

A part that can be absent is told from an empty one: `userinfo`, `host` and `port` are present only
where the URI has an authority, `query` and `fragment` only where their delimiter stands.
-/
namespace SignIn

/-- **A URI and its parts.** -/
structure UriParts where
  uri : Text
  scheme : Text
  userinfo : Option Text
  host : Option Text
  port : Option Nat
  path : Text
  query : Option Text
  fragment : Option Text
  deriving DecidableEq

/-- **The greatest port,** the greatest number of 64 bits. -/
def greatestPort : Nat := Nat.pow 2 64 - 1

end SignIn
