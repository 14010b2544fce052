import SignIn.Rules.Characters
/-!
# The rules of a sign-in message

Two sets of rules read a message.  The *structural* rules cut it into lines and are permissive: a
field is anything up to the line feed, and their names begin with `f`.  The *field* rules judge one
field each, as a text of its own.  A message is matched by the first set once, and each field it cut
out by one rule of the second.

The lines that a message must have begin with rules of their own (`pre-uri` and the like), so that the
first of them that is missing can be told.
-/
namespace SignIn
namespace Rules

/-- **The rule that cuts a message into its fields.** -/
def firstPass : Text := "siwe-first-pass"

/-- An optional line: a line feed, a label, and the field. -/
def optionalLine (label field : Text) : Expr := .opt (.cat [lf, .tbs label, .rnm field])

/-- **The lines of a message in their order.** -/
def messageBody : Expr :=
  .cat [
    .opt (.rnm "ffscheme"), .rnm "fdomain",
    .tbs " wants you to sign in with your Ethereum account:", lf,
    .rnm "faddress", lf,
    .alt [.rnm "empty-statement", .rnm "no-statement", .rnm "actual-statement"],
    .rnm "pre-uri", .rnm "furi", lf,
    .rnm "pre-version", .rnm "fversion", lf,
    .rnm "pre-chain-id", .rnm "fchain-id", lf,
    .rnm "pre-nonce", .rnm "fnonce", lf,
    .rnm "pre-issued-at", .rnm "fissued-at",
    optionalLine "Expiration Time: " "fexpiration-time",
    optionalLine "Not Before: " "fnot-before",
    optionalLine "Request ID: " "frequest-id",
    optionalLine "Resources:" "fresources"]

/-- **The structural rules.**  A scheme stops at a colon and a domain at a blank, and both may hold
line feeds; every other field is one line. -/
def structural : List (Text × Expr) := [
  (firstPass, messageBody),
  ("pre-uri", .tbs "URI: "),
  ("pre-version", .tbs "Version: "),
  ("pre-chain-id", .tbs "Chain ID: "),
  ("pre-nonce", .tbs "Nonce: "),
  ("pre-issued-at", .tbs "Issued At: "),
  ("ffscheme", .cat [.rnm "fscheme", .tbs "://"]),
  ("fdomain", .plus (.alt [.trg 0 31, .trg 33 127])),
  ("fissued-at", .plus lineChar),
  ("fexpiration-time", .plus lineChar),
  ("fnot-before", .plus lineChar),
  ("furi", .plus lineChar),
  ("fscheme", .plus (.alt [.trg 0 57, .trg 59 127])),
  ("faddress", .plus lineChar),
  ("fstatement", .plus lineChar),
  ("fversion", .plus lineChar),
  ("fchain-id", .plus lineChar),
  ("fnonce", .plus lineChar),
  ("frequest-id", .star lineChar),
  ("fresources", .star (.cat [lf, .rnm "fresource"])),
  ("fresource", .cat [.tls "- ", .plus lineChar]),
  ("no-statement", .tbs "\n\n"),
  ("empty-statement", .tbs "\n\n\n"),
  ("actual-statement", .cat [lf, .rnm "fstatement", .tbs "\n\n"])]

/-- **The rules of single fields.** -/
def fields : List (Text × Expr) := [
  ("domain", .rnm "authority"),
  ("address", .cat [.tbs "0x", .rep 40 (some 40) hexDigit]),
  ("statement", .plus (.alt [.rnm "reserved", .rnm "unreserved", .tls " "])),
  ("version", .tbs "1"),
  ("chain-id", .plus digit),
  ("nonce", .rep 8 none (.alt [lower, upper, digit])),
  ("issued-at", .rnm "date-time"),
  ("expiration-time", .rnm "date-time"),
  ("not-before", .rnm "date-time"),
  ("request-id", .star (.rnm "pchar")),
  ("resources", .star (.cat [lf, .rnm "resource"])),
  ("resource", .cat [.tbs "- ", .rnm "URI"])]

end Rules
end SignIn
