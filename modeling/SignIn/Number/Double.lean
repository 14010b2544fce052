/-!
# Numbers of 53 bits

A double is a natural number below 2^53 times a power of two, and a real number is read as the double
nearest to it.  Everything here is exact arithmetic on natural numbers: a real number is given as a
quotient, and rounding is one division with its remainder.  The sign is kept by whoever has one.
-/
namespace SignIn

/-- **The number `mantissa · 2 ^ exponent`.** -/
structure Double where
  mantissa : Nat
  exponent : Int
  deriving DecidableEq

/-- **A quotient rounded to the nearest natural number,** a half to the even one. -/
def halfEven (num den : Nat) : Nat :=
  let q := num / den
  let twice := 2 * (num % den)
  if twice < den then q else if den < twice then q + 1 else q + q % 2

/-- A quotient divided by a power of two, as numerator and denominator. -/
def shiftedRatio (num den : Nat) (exponent : Int) : Nat × Nat :=
  if 0 ≤ exponent then (num, den * Nat.pow 2 exponent.toNat) else (num * Nat.pow 2 (-exponent).toNat, den)

namespace Double

/-- The bits of a mantissa. -/
def mantissaBits : Nat := 53

/-- The smallest exponent. -/
def leastExponent : Int := -1074

/-- The greatest exponent. -/
def greatestExponent : Int := 971

/-- Zero. -/
def zero : Double := ⟨0, leastExponent⟩

/-- The greatest power of two that is not above a positive quotient, as its exponent. -/
def binaryOrder (num den : Nat) : Int :=
  let guess : Int := num.log2 - den.log2
  let (n, d) := shiftedRatio num den guess
  if d ≤ n then guess else guess - 1

/-- **The double nearest to a quotient,** and nothing beyond the greatest double. -/
def ofRatio? (num den : Nat) : Option Double :=
  if num = 0 then some zero
  else
    let exponent := max leastExponent (binaryOrder num den - (mantissaBits - 1 : Nat))
    let (n, d) := shiftedRatio num den exponent
    let mantissa := halfEven n d
    let rounded : Double :=
      if mantissa = Nat.pow 2 mantissaBits then ⟨Nat.pow 2 (mantissaBits - 1), exponent + 1⟩
      else ⟨mantissa, exponent⟩
    if greatestExponent < rounded.exponent then none else some rounded

/-- A double as a quotient. -/
def ratio (x : Double) : Nat × Nat :=
  if 0 ≤ x.exponent then (x.mantissa * Nat.pow 2 x.exponent.toNat, 1)
  else (x.mantissa, Nat.pow 2 (-x.exponent).toNat)

/-- The rounded product of two doubles. -/
def mul? (x y : Double) : Option Double :=
  ofRatio? (x.ratio.1 * y.ratio.1) (x.ratio.2 * y.ratio.2)

/-- The rounded quotient of two doubles. -/
def div? (x y : Double) : Option Double :=
  ofRatio? (x.ratio.1 * y.ratio.2) (x.ratio.2 * y.ratio.1)

/-- **The greatest power of ten that is a finite double,** as its exponent. -/
def greatestTen : Nat := 308

/-- **A number times a power of ten,** rounded where it is computed in doubles: the number, the power,
and their product or quotient.  A power too small for a double is divided by in two steps; beyond two
nothing is left. -/
def scaled? (significand : Nat) (power : Int) : Option Double := do
  let x ← ofRatio? significand 1
  if x.mantissa = 0 then return zero
  let size := power.natAbs
  if 0 ≤ power then
    if size ≤ greatestTen then x.mul? (← ofRatio? (.pow 10 size) 1) else none
  else if size ≤ greatestTen then x.div? (← ofRatio? (.pow 10 size) 1)
  else if size ≤ 2 * greatestTen then
    let y ← x.div? (← ofRatio? (.pow 10 greatestTen) 1)
    y.div? (← ofRatio? (.pow 10 (size - greatestTen)) 1)
  else return zero

end Double
end SignIn
