import SignIn.Text.Ranges
/-!
# Characters that show nothing

The Unicode property `Default_Ignorable_Code_Point` (version 17.0): fillers, joiners, variation
selectors and tags.  Some are letters or marks by their category, but nothing is seen where one is shown.
-/
namespace SignIn

/-- **The ranges of `Default_Ignorable_Code_Point`,** first and last code point of each, in order. -/
def ignorableRanges : List (Nat × Nat) := [
  (0xAD, 0xAD), (0x34F, 0x34F), (0x61C, 0x61C), (0x115F, 0x1160), (0x17B4, 0x17B5),
  (0x180B, 0x180F), (0x200B, 0x200F), (0x202A, 0x202E), (0x2060, 0x206F), (0x3164, 0x3164),
  (0xFE00, 0xFE0F), (0xFEFF, 0xFEFF), (0xFFA0, 0xFFA0), (0xFFF0, 0xFFF8), (0x1BCA0, 0x1BCA3),
  (0x1D173, 0x1D17A), (0xE0000, 0xE0FFF)]

/-- **A character is ignorable** when its code point lies in one of the ranges.  No printable ASCII
character is. -/
def isIgnorable (c : Char) : Bool := decide (0xAD ≤ c.toNat) && inRanges ignorableRanges c

end SignIn
