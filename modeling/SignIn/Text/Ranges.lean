/-!
# Ranges of characters

A property of characters is a list of ranges of code points, each given by its first and its last.
-/
namespace SignIn

/-- **A character is in a list of ranges** when its code point lies in one of them. -/
def inRanges (ranges : List (Nat × Nat)) (c : Char) : Bool :=
  ranges.any (fun r => decide (r.1 ≤ c.toNat) && decide (c.toNat ≤ r.2))

end SignIn
