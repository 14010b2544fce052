import SignIn.Rules.Characters
/-!
# The rules of date-times

The shape of an RFC 3339 date-time.  The rules count digits; whether the digits name a day and a time
that exist is the calendar's question.
-/
namespace SignIn
namespace Rules

/-- A field of a fixed number of digits. -/
def digits (n : Nat) : Expr := .rep n (some n) digit

/-- **The rules of RFC 3339.** -/
def dateTime : List (Text × Expr) := [
  ("date-fullyear", digits 4),
  ("date-month", digits 2),
  ("date-mday", digits 2),
  ("time-hour", digits 2),
  ("time-minute", digits 2),
  ("time-second", digits 2),
  ("time-secfrac", .cat [.tbs ".", .plus digit]),
  ("time-numoffset",
    .cat [.alt [.tbs "+", .tbs "-"], .rnm "time-hour", .tbs ":", .rnm "time-minute"]),
  ("time-offset", .alt [.tls "Z", .rnm "time-numoffset"]),
  ("partial-time",
    .cat [.rnm "time-hour", .tbs ":", .rnm "time-minute", .tbs ":", .rnm "time-second",
      .opt (.rnm "time-secfrac")]),
  ("full-date",
    .cat [.rnm "date-fullyear", .tbs "-", .rnm "date-month", .tbs "-", .rnm "date-mday"]),
  ("full-time", .cat [.rnm "partial-time", .rnm "time-offset"]),
  ("date-time", .cat [.rnm "full-date", .tls "T", .rnm "full-time"])]

end Rules
end SignIn
