import SignIn.Text.Basic
/-!
# The permutation Keccak-f[1600]

The state is 25 lanes of 64 bits; lane `(x, y)` stands at index `x + 5 y`.  One round is four maps
of the whole state:

* `theta` adds to every lane the parities of the column before it and, turned by one bit, of the
  column after it;
* `rhoPi` turns each lane by its own amount and moves it to its place;
* `chi` mixes each row, a lane with the two lanes after it;
* `iota` adds the round's constant to the first lane.

`rhoPi` is done in place: the moves of all lanes but the first are one cycle, so a single lane is
carried along it, put down where it belongs and exchanged for the lane found there.  The other maps
read the state before them and are given lane by lane.
-/
namespace SignIn
namespace Keccak

/-- **The state is 25 lanes of 64 bits.** -/
abbrev Lanes := Vector UInt64 25

/-- A lane turned left by a number of bits below 64. -/
def rotateLeft (w : UInt64) (n : Nat) : UInt64 :=
  (w <<< UInt64.ofNat n) ||| (w >>> UInt64.ofNat (64 - n))

/-- The index of the lane `(x, y)`, each coordinate taken modulo five. -/
def laneIndex (x y : Nat) : Fin 25 := ⟨x % 5 + 5 * (y % 5), by omega⟩

/-- The lane at `(x, y)`. -/
def laneAt (a : Lanes) (x y : Nat) : UInt64 := a[laneIndex x y]

/-- A column by its coordinate, taken modulo five. -/
def columnIndex (x : Nat) : Fin 5 := ⟨x % 5, by omega⟩

/-- **The parity of a column** is the sum of its five lanes. -/
def columnParities (a : Lanes) : Vector UInt64 5 :=
  Vector.ofFn fun x : Fin 5 =>
    laneAt a x 0 ^^^ laneAt a x 1 ^^^ laneAt a x 2 ^^^ laneAt a x 3 ^^^ laneAt a x 4

/-- What `theta` adds to the lanes of each column. -/
def columnEffects (a : Lanes) : Vector UInt64 5 :=
  let parities := columnParities a
  Vector.ofFn fun x : Fin 5 =>
    parities[columnIndex (x.val + 4)] ^^^ rotateLeft parities[columnIndex (x.val + 1)] 1

/-- **Theta adds to each lane the effect of its column.** -/
def theta (a : Lanes) : Lanes :=
  let d := columnEffects a
  Vector.ofFn fun i : Fin 25 => a[i] ^^^ d[columnIndex i.val]

/-- The lanes that rho and pi fill, in the order of their cycle; the first of them is filled from lane
1, and any other from the lane before it. -/
def cycleLanes : List (Fin 25) :=
  [10, 7, 11, 17, 18, 3, 5, 16, 8, 21, 24, 4, 15, 23, 19, 13, 12, 2, 20, 14, 22, 9, 6, 1]

/-- How far the lane that is put down is turned, in the order of the cycle. -/
def cycleTurns : List Nat :=
  [1, 3, 6, 10, 15, 21, 28, 36, 45, 55, 2, 14, 27, 41, 56, 8, 25, 43, 62, 18, 39, 61, 20, 44]

/-- **The lane carried is turned and put down,** and the one that stood there is taken up. -/
def exchange (s : Lanes × UInt64) (step : Fin 25 × Nat) : Lanes × UInt64 :=
  (s.1.set step.1 (rotateLeft s.2 step.2), s.1[step.1])

/-- **Rho and pi turn every lane and move it,** along their cycle. -/
def rhoPi (a : Lanes) : Lanes := ((cycleLanes.zip cycleTurns).foldl exchange (a, a[1])).1

/-- **Chi adds to each lane, where the next lane of its row is clear, the lane after that.** -/
def chi (a : Lanes) : Lanes :=
  Vector.ofFn fun i : Fin 25 =>
    a[i] ^^^ (~~~ laneAt a (i.val + 1) (i.val / 5) &&& laneAt a (i.val % 5 + 2) (i.val / 5))

/-- **Iota adds the round's constant to the first lane.** -/
def iota (constant : UInt64) (a : Lanes) : Lanes := a.set 0 (a[0] ^^^ constant)

/-- The constants of the 24 rounds. -/
def roundConstants : List UInt64 :=
  [0x0000000000000001, 0x0000000000008082, 0x800000000000808A, 0x8000000080008000,
   0x000000000000808B, 0x0000000080000001, 0x8000000080008081, 0x8000000000008009,
   0x000000000000008A, 0x0000000000000088, 0x0000000080008009, 0x000000008000000A,
   0x000000008000808B, 0x800000000000008B, 0x8000000000008089, 0x8000000000008003,
   0x8000000000008002, 0x8000000000000080, 0x000000000000800A, 0x800000008000000A,
   0x8000000080008081, 0x8000000000008080, 0x0000000080000001, 0x8000000080008008]

/-- One round. -/
def round (a : Lanes) (constant : UInt64) : Lanes := iota constant (chi (rhoPi (theta a)))

/-- **The permutation is its 24 rounds in order.** -/
def permute (a : Lanes) : Lanes := roundConstants.foldl round a

end Keccak
end SignIn
