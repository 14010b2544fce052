import SignIn.Text.Basic
/-!
# What breaks a match off

That a text does not match is no error; it is an answer.  An error is a name that nothing declares, a
terminal without a callback, or a callback that breaks its contract: one that claims more characters
than are left, leaves undecided what it has to decide, or accepts the empty text for a terminal that
does not.

Two more are no one's contract.  `outOfTable` would be a grammar that refers outside its own tables,
which `Grammar.ofTables` does not accept; `tooDeep` is a rule that calls itself without reading
anything.
-/
namespace SignIn

/-- **Why a match was not begun, or broke off.** -/
inductive MatchError where
  | unknownStartRule (name : Text)
  | unknownName (name : Text)
  | unboundUdt (name : Text)
  | phraseOverrun (name : Text) (length remaining : Nat)
  | activeReturn (name : Text)
  | emptyUdt (name : Text)
  | outOfTable
  | tooDeep
  deriving DecidableEq

/-- The sentence that tells of the error. -/
def MatchError.message : MatchError → Text
  | .unknownStartRule name => "start rule '" ++ name ++ "' not recognized"
  | .unknownName name => "'" ++ name ++ "' is not a rule or UDT name"
  | .unboundUdt name => "UDT '" ++ name ++ "' has no callback"
  | .phraseOverrun name length remaining =>
    name ++ ": callback returned phrase length " ++ decimal length ++ " but only " ++
      decimal remaining ++ " characters remain"
  | .activeReturn name => name ++ ": callback must not return ACTIVE here"
  | .emptyUdt name => name ++ ": UDT returned an empty phrase but does not accept empty"
  | .outOfTable => "the grammar refers outside its tables"
  | .tooDeep => "a rule calls itself without reading anything"

end SignIn
