import SignIn.Number.Double
import SignIn.Text.Basic
/-!
# The shortest decimal form of a double

A double is shown by the fewest decimal digits that are read back as it, and of those by the ones
nearest to it, a tie going to the even digit.  The reals that are read back as a double form an
interval around it, with its ends when the mantissa is even; for 1, 2, … 17 digits the two neighbours
of the double on that decimal grid are tried, and the first grid with a hit wins.
-/
namespace SignIn

/-- **Decimal digits and the power of ten they are multiplied by.** -/
structure DecimalForm where
  digits : Nat
  power : Int
  deriving DecidableEq

namespace Double

/-- The double in quarters of its last bit. -/
def quarters (x : Double) : Nat := 4 * x.mantissa

/-- **The lower end of the interval,** in quarters: half a bit below, a quarter where the bits below
are half as wide. -/
def lowerEnd (x : Double) : Nat :=
  if x.mantissa = Nat.pow 2 (mantissaBits - 1) && decide (leastExponent < x.exponent)
  then x.quarters - 1 else x.quarters - 2

/-- The upper end of the interval, in quarters. -/
def upperEnd (x : Double) : Nat := x.quarters + 2

/-- A number of quarters as a quotient of decimal units of a power of ten. -/
def inUnits (x : Double) (quarters : Nat) (power : Int) : Nat × Nat :=
  let (n, d) := ratio ⟨quarters, x.exponent - 2⟩
  if 0 ≤ power then (n, d * Nat.pow 10 power.toNat) else (n * Nat.pow 10 (-power).toNat, d)

/-- **Whether digits on a grid are read back as the double.** -/
def readsBack (x : Double) (digits : Nat) (power : Int) : Bool :=
  let (lo, d) := x.inUnits x.lowerEnd power
  let (hi, d') := x.inUnits x.upperEnd power
  if x.mantissa % 2 = 0 then decide (lo ≤ digits * d) && decide (digits * d' ≤ hi)
  else decide (lo < digits * d) && decide (digits * d' < hi)

/-- The exponent of the greatest power of ten that is not above a positive double: the smallest double
is above 10^-350. -/
def decimalOrder (x : Double) : Int :=
  let (n, d) := x.ratio
  ((decimal (n * Nat.pow 10 350 / d)).length : Int) - 351

/-- **The form on the grid of a number of digits,** if one of the two neighbours is read back. -/
def onGrid? (x : Double) (digits : Nat) : Option DecimalForm :=
  let power := x.decimalOrder - (digits - 1 : Nat)
  let (n, d) := x.inUnits x.quarters power
  let nearest := halfEven n d
  let other := if nearest * d ≤ n then nearest + 1 else nearest - 1
  if x.readsBack nearest power then some ⟨nearest, power⟩
  else if x.readsBack other power then some ⟨other, power⟩
  else none

/-- The digits without their final zeros. -/
def trimmed : Nat → DecimalForm → DecimalForm
  | 0, f => f
  | fuel + 1, f =>
    if f.digits % 10 = 0 then trimmed fuel ⟨f.digits / 10, f.power + 1⟩ else f

/-- **The shortest form of a positive double.** -/
def shortest (x : Double) : DecimalForm :=
  trimmed 2 (((List.range' 1 17).findSome? x.onGrid?).getD ⟨0, 0⟩)

end Double

/-- So many zeros. -/
def zeros (n : Nat) : Text := List.replicate n '0'

/-- **How a double is written:** with a point if its leading digit stands within 16 places before it
or 5 behind it, with a signed exponent otherwise. -/
def DecimalForm.text (f : DecimalForm) : Text :=
  let ds := decimal f.digits
  let point := (ds.length : Int) + f.power
  if 0 ≤ f.power && decide (point ≤ 16) then ds ++ zeros f.power.toNat ++ ".0"
  else if decide (0 < point) && decide (point ≤ 16) then
    ds.take point.toNat ++ "." ++ ds.drop point.toNat
  else if decide (-5 < point) && decide (point ≤ 0) then "0." ++ zeros (-point).toNat ++ ds
  else
    let sign := if point - 1 < 0 then '-' else '+'
    let exponent := 'e' :: sign :: decimal (point - 1).natAbs
    ds.take 1 ++ (if ds.length = 1 then [] else '.' :: ds.drop 1) ++ exponent

/-- **The text of a double with a sign.** -/
def Double.text (negative : Bool) (x : Double) : Text :=
  (if negative then ['-'] else []) ++
    (if x.mantissa = 0 then "0.0".toList else x.shortest.text)

end SignIn
