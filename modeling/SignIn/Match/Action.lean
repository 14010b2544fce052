import SignIn.Match.Matcher
/-!
# Callbacks that only look

Most callbacks leave the phrase as it is and note what was read.  These are built from a function of
the input, the offset, the length and the accumulator, and the state they wait for.
-/
namespace SignIn
namespace Callback

/-- **Notes what a match read.** -/
def onMatch {D : Type} (note : Array Char → Nat → Nat → D → D) : Callback D :=
  fun p input offset d => (p, if p.state = .matched then note input offset p.length d else d)

/-- **Notes what a success read,** be it nothing. -/
def onSuccess {D : Type} (note : Array Char → Nat → Nat → D → D) : Callback D :=
  fun p input offset d => (p, if p.isSuccess then note input offset p.length d else d)

/-- **Prepares the accumulator on the way down.** -/
def onEntry {D : Type} (prepare : D → D) : Callback D :=
  fun p _ _ d => (p, if p.state = .active then prepare d else d)

/-- **Prepares on the way down, and on the way up rejects a match that fails a test.** -/
def judging {D : Type} (prepare : D → D) (holds : D → Bool) : Callback D :=
  fun p _ _ d =>
    match p.state with
    | .active => (p, prepare d)
    | .matched => (if holds d then p else .fail, d)
    | .emptyMatch | .noMatch => (p, d)

end Callback
end SignIn
