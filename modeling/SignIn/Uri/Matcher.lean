import SignIn.Match.Parse
import SignIn.Rules.Bundled
import SignIn.Uri.Capture
/-!
# URIs and single fields

The bundled grammar with the callbacks of the URI rules judges a text by any one of its rules, and
splits a URI into its parts.  What is counted on the way, the rounds of repetitions and the groups of an
address, is counted exactly unless another counter is given.
-/
namespace SignIn

/-- **The bundled grammar with the callbacks of the URI rules.** -/
def fieldMatcher (counter : Counter := .exact) : Matcher UriCapture :=
  ((Matcher.bare bundledGrammar counter).bindAll (UriCapture.actions counter)).toOption.getD
    (.bare bundledGrammar counter)

/-- **Whether a whole text matches one rule of the bundled grammar.** -/
def matchesRule (rule text : Text) (counter : Counter := .exact) : Except MatchError Bool :=
  ((fieldMatcher counter).parse rule text.toArray .empty).result.map MatchReport.success

/-- The parts that a match noted, if it is a success. -/
def UriParts.ofParsed? (parsed : Parsed UriCapture Unit) : Option UriParts :=
  match parsed.result with
  | .ok report => if report.success then some parsed.data.parts else none
  | .error _ => none

/-- **The parts of a text that is a URI.** -/
def splitUri? (text : Text) (counter : Counter := .exact) : Option UriParts :=
  UriParts.ofParsed? ((fieldMatcher counter).parse "URI" text.toArray .empty)

end SignIn
