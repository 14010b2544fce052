import SignIn.Message.Capture
import SignIn.Uri.Matcher
/-!
# Watching the bundled grammar at work

A text is matched by one rule of the bundled grammar while a watcher looks on.  The structural rule
runs with its own callbacks, every other rule with those of the URI rules.
-/
namespace SignIn

/-- **A watched match from a rule of the bundled grammar.** -/
def watchRule {σ : Type} (watch : Watcher σ) (rule : Text) (input : Array Char) (seen : σ) :
    Except MatchError MatchReport × σ :=
  if sameName rule Rules.firstPass then
    let parsed := messageMatcher.parseWith watch rule input .empty seen
    (parsed.result, parsed.seen)
  else
    let parsed := fieldMatcher.parseWith watch rule input .empty seen
    (parsed.result, parsed.seen)

end SignIn
