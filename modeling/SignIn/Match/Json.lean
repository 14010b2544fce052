import SignIn.Json.Record
import SignIn.Match.Parse
/-!
# Match reports as JSON

A report is a record of all its numbers.
-/
namespace SignIn

/-- **The record of a report.** -/
def MatchReport.record (r : MatchReport) : Json.Record :=
  [("success".toList, .truth r.success), ("state".toList, .string r.state.word),
    ("length".toList, .number r.length), ("matched".toList, .number r.matched),
    ("maxMatched".toList, .number r.reach), ("maxTreeDepth".toList, .number r.deepest),
    ("nodeHits".toList, .number r.hits)]

end SignIn
