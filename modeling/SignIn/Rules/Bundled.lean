import SignIn.Rules.DateTime
import SignIn.Rules.Message
import SignIn.Rules.Uri
/-!
# The bundled grammar

One grammar holds the structural rules of a message, the rules of its fields, and the rules of
date-times and URIs that those refer to.
-/
namespace SignIn

/-- **All the rules of the bundled grammar,** in the order in which it lists them. -/
def bundledRules : List (Text × Expr) :=
  Rules.structural ++ Rules.fields ++ Rules.dateTime ++ Rules.uri

/-- **The bundled grammar.** -/
def bundledGrammar : Grammar := (Grammar.ofExprs bundledRules []).toOption.getD .empty

end SignIn
