/-!
# Counting the rounds of a repetition

A repetition compares the number of its rounds with its bounds.  A counter may hold any number, or be a word of 32 bits,
which begins anew at 2 ^ 32.  Below that the two show the same.
-/
namespace SignIn

/-- **What the rounds of a repetition are counted in:** numbers without bound, or words of 32 bits. -/
inductive Counter where
  | exact
  | word
  deriving DecidableEq, Repr

namespace Counter

/-- What a counter shows after as many rounds. -/
def shows : Counter → Nat → Nat
  | exact, n => n
  | word, n => n % UInt32.size

/-- **What a counter shows one round after it showed a number.** -/
def next (counter : Counter) (shown : Nat) : Nat := counter.shows (shown + 1)

/-- **A counter holds all numbers up to one:** none of them makes it begin anew. -/
def Holds : Counter → Nat → Prop
  | exact, _ => True
  | word, n => n < UInt32.size

instance (counter : Counter) (n : Nat) : Decidable (counter.Holds n) :=
  match counter with
  | exact => inferInstanceAs (Decidable True)
  | word => inferInstanceAs (Decidable (n < UInt32.size))

@[simp] theorem shows_exact (n : Nat) : exact.shows n = n := rfl

@[simp] theorem next_exact (n : Nat) : exact.next n = n + 1 := by rw [next, shows_exact]

@[simp] theorem shows_zero (counter : Counter) : counter.shows 0 = 0 := by cases counter <;> rfl

@[simp] theorem shows_one (counter : Counter) : counter.shows 1 = 1 := by cases counter <;> rfl

theorem shows_le (counter : Counter) (n : Nat) : counter.shows n ≤ n := by
  cases counter with
  | exact => exact Nat.le_refl n
  | word => exact Nat.mod_le n _

/-- **A counter goes on from what it shows.** -/
theorem next_shows (counter : Counter) (n : Nat) : counter.next (counter.shows n) = counter.shows (n + 1) := by
  cases counter with
  | exact => rfl
  | word => exact Nat.mod_add_mod n UInt32.size 1

theorem holds_of_lt {counter : Counter} {n : Nat} (h : n < UInt32.size) : counter.Holds n := by
  cases counter with
  | exact => trivial
  | word => exact h

theorem Holds.mono {counter : Counter} {m n : Nat} (h : counter.Holds n) (hle : m ≤ n) : counter.Holds m := by
  cases counter with
  | exact => trivial
  | word => exact Nat.lt_of_le_of_lt hle h

/-- **A counter shows what it holds.** -/
theorem Holds.shows_eq {counter : Counter} {n : Nat} (h : counter.Holds n) : counter.shows n = n := by
  cases counter with
  | exact => rfl
  | word => exact Nat.mod_eq_of_lt h

end Counter
end SignIn
