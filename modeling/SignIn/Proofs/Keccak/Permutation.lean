import Mathlib.Logic.Function.Iterate
import SignIn.Keccak.Permutation
/-!
# The permutation by its step mappings

The rounds are told of the state as a grid of five by five lanes, each mapping at once of all lanes, with the turns and the
round constants made by the rules that generate them (`Grid`).  The permutation comes to the same (`permute_eq_rounds`).

What has to be argued is that the one lane carried along a cycle does what the mapping of all lanes does: no lane is met
twice, so a lane is taken up before anything else is put down on it (`exchanged`).  The rest is that the tables of the
cycle are those of the rule.
-/
namespace SignIn
namespace Keccak

/-! ## The step mappings -/

/-- **The state as a grid:** the lane `(x, y)`, coordinates modulo five. -/
abbrev Grid := Fin 5 → Fin 5 → UInt64

def gridIndex (x y : Fin 5) : Fin 25 := ⟨x.val + 5 * y.val, by omega⟩

/-- The lanes of a state as a grid. -/
def Lanes.grid (a : Lanes) : Grid := fun x y => a[gridIndex x y]

/-- A lane with its bits moved up by a number of places, the topmost ones to the bottom. -/
def rotl (w : UInt64) (n : Nat) : UInt64 := ⟨w.toBitVec.rotateLeft n⟩

def moved (p : Fin 5 × Fin 5) : Fin 5 × Fin 5 := (p.2, 2 * p.1 + 3 * p.2)

/-- **The walk of the lanes:** from `(1, 0)` on, each goes where the lane before it is moved to. -/
def walked (t : Nat) : Fin 5 × Fin 5 := moved^[t] (1, 0)

/-- **How far a lane is turned:** the lane of step `t` by `(t + 1) (t + 2) / 2` bits, modulo 64, and the one that the walk does
not meet, not at all. -/
def turn (x y : Fin 5) : Nat :=
  match (List.range 24).find? fun t => decide (walked t = (x, y)) with
  | some t => (t + 1) * (t + 2) / 2 % 64
  | none => 0

/-- **The shift register** of eight bits: the bit shifted out comes back by the rule x⁸ = x⁶ + x⁵ + x⁴ + 1. -/
def shifted (r : BitVec 8) : BitVec 8 := if r.msb then (r <<< 1) ^^^ 0b01110001 else r <<< 1

def registerBit (t : Nat) : Bool := (shifted^[t] 1).getLsbD 0

/-- **The constant of a round:** the bits 0, 1, 3, 7, 15, 31 and 63 are the next seven of the register. -/
def roundConstant (n : Nat) : UInt64 :=
  ⟨(List.range 7).foldl (fun c j => c ||| (BitVec.ofBool (registerBit (7 * n + j))).setWidth 64 <<< (Nat.pow 2 j - 1)) 0⟩

namespace Grid

variable (A : Grid)

def parity (x : Fin 5) : UInt64 := A x 0 ^^^ A x 1 ^^^ A x 2 ^^^ A x 3 ^^^ A x 4

/-- **Theta:** to every lane the parities of the column before and, turned by one, of the column after are added. -/
def theta : Grid := fun x y => A x y ^^^ (A.parity (x - 1) ^^^ rotl (A.parity (x + 1)) 1)

/-- **Rho and pi:** the lane `(x, y)` is turned and moved to `(y, 2 x + 3 y)`; so `(x, y)` is filled from `(x + 3 y, x)`. -/
def rhoPi : Grid := fun x y => rotl (A (x + 3 * y) x) (turn (x + 3 * y) x)

/-- **Chi:** to every lane the second next of its row is added where the next one is clear. -/
def chi : Grid := fun x y => A x y ^^^ (~~~ A (x + 1) y &&& A (x + 2) y)

/-- **Iota:** the constant is added to the lane `(0, 0)`. -/
def iota (constant : UInt64) : Grid := fun x y => if x = 0 ∧ y = 0 then A x y ^^^ constant else A x y

def round (n : Nat) : Grid := A.theta.rhoPi.chi.iota (roundConstant n)

end Grid

/-! ## The cycle -/

/-- **What a lane carried along distinct lanes leaves behind:** on each it meets, the one carried up to there, turned; on
any other, what stood there. -/
theorem exchanged : ∀ (steps : List (Fin 25 × Nat)) (a : Lanes) (carried : UInt64), (steps.map (·.1)).Nodup →
    (∀ i, i ∉ steps.map (·.1) → (steps.foldl exchange (a, carried)).1.get i = a.get i) ∧
      ∀ p ∈ (carried :: steps.map fun step => a.get step.1).zip steps,
        (steps.foldl exchange (a, carried)).1.get p.2.1 = rotateLeft p.1 p.2.2
  | [], _, _, _ => ⟨fun _ _ => rfl, fun _ hp => by simp at hp⟩
  | (lane, n) :: steps, a, carried, hd => by
    rw [List.map_cons, List.nodup_cons] at hd
    obtain ⟨hother, hmet⟩ := exchanged steps (a.set lane (rotateLeft carried n)) (a.get lane) hd.2
    -- the lane put down changes nothing that is still to be taken up
    have hkept : ∀ i : Fin 25, i ≠ lane → (a.set lane (rotateLeft carried n)).get i = a.get i := fun i hi =>
      Vector.getElem_set_ne lane.isLt i.isLt fun h => hi (Fin.ext h.symm)
    have hstood : (steps.map fun step => (a.set lane (rotateLeft carried n)).get step.1) =
        steps.map fun step => a.get step.1 :=
      List.map_congr_left fun step hstep => hkept _ fun h => hd.1 (h ▸ List.mem_map_of_mem (f := (·.1)) hstep)
    rw [hstood] at hmet
    refine ⟨fun i hi => ?_, fun p hp => ?_⟩
    · rw [List.map_cons, List.mem_cons, not_or] at hi
      exact (hother i hi.2).trans (hkept i hi.1)
    · rw [List.map_cons, List.zip_cons_cons, List.mem_cons] at hp
      rcases hp with rfl | hp
      · exact (hother lane hd.1).trans (Vector.getElem_set_self lane.isLt)
      · exact hmet p hp

/-! ## The tables -/

/-- **Each lane but the first is filled from where it is moved from,** turned as far as the rule says. -/
theorem cycle_fills : ∀ x y : Fin 5, (x, y) ≠ (0, 0) →
    (gridIndex (x + 3 * y) x, gridIndex x y, turn (x + 3 * y) x) ∈ (1 :: cycleLanes).zip (cycleLanes.zip cycleTurns) := by
  decide

theorem cycle_turns : ∀ step ∈ cycleLanes.zip cycleTurns, 0 < step.2 ∧ step.2 < 64 := by decide

theorem roundConstants_eq : roundConstants = (List.range 24).map roundConstant := by decide

/-! ## The mappings lane by lane -/

theorem rotateLeft_eq_rotl (w : UInt64) {n : Nat} (hpos : 0 < n) (hn : n < 64) : rotateLeft w n = rotl w n := by
  have hplace : ∀ k < 64, ((UInt64.ofNat k).toBitVec % 64).toNat = k := fun k hk => by
    simp [BitVec.toNat_umod]
    omega
  rw [← UInt64.toBitVec_inj, rotateLeft, UInt64.toBitVec_or, UInt64.toBitVec_shiftLeft, UInt64.toBitVec_shiftRight,
    BitVec.shiftLeft_eq', BitVec.ushiftRight_eq', hplace n hn, hplace (64 - n) (by omega), rotl, BitVec.rotateLeft_def,
    Nat.mod_eq_of_lt hn]

theorem rotl_zero (w : UInt64) : rotl w 0 = w := by
  rw [← UInt64.toBitVec_inj, rotl, BitVec.rotateLeft_def, Nat.zero_mod, Nat.sub_zero, BitVec.shiftLeft_zero,
    BitVec.ushiftRight_eq_zero (Nat.le_refl 64), BitVec.or_zero]

variable (a : Lanes)

theorem columnIndex_val (x : Fin 5) : columnIndex x.val = x := Fin.ext (Nat.mod_eq_of_lt x.isLt)

theorem laneAt_eq_grid (m n : Nat) : laneAt a m n = a.grid (columnIndex m) (columnIndex n) := rfl

theorem getElem_columnParities (x : Fin 5) : (columnParities a)[x] = a.grid.parity x := by
  simp only [columnParities, Fin.getElem_fin, Vector.getElem_ofFn, laneAt_eq_grid, columnIndex_val]
  rfl

theorem getElem_columnEffects (x : Fin 5) :
    (columnEffects a)[x] = a.grid.parity (x - 1) ^^^ rotl (a.grid.parity (x + 1)) 1 := by
  have hbefore : columnIndex (x.val + 4) = x - 1 := by decide +revert
  have hafter : columnIndex (x.val + 1) = x + 1 := by decide +revert
  rw [← rotateLeft_eq_rotl _ (by decide) (by decide), ← getElem_columnParities, ← getElem_columnParities]
  simp only [columnEffects, Fin.getElem_fin, Vector.getElem_ofFn, hbefore, hafter]

theorem grid_theta : (theta a).grid = a.grid.theta := by
  funext x y
  have hcolumn : columnIndex (gridIndex x y).val = x := by decide +revert
  rw [Grid.theta, ← getElem_columnEffects]
  simp only [Lanes.grid, theta, Fin.getElem_fin, Vector.getElem_ofFn, hcolumn]

theorem grid_rhoPi : (rhoPi a).grid = a.grid.rhoPi := by
  funext x y
  have hlanes : (cycleLanes.zip cycleTurns).map (·.1) = cycleLanes := rfl
  obtain ⟨hother, hmet⟩ := exchanged (cycleLanes.zip cycleTurns) a (a.get 1) (by decide)
  rw [hlanes] at hother
  by_cases h : (x, y) = (0, 0)
  · -- the first lane is not on the cycle, and is not turned
    obtain ⟨rfl, rfl⟩ := Prod.mk.inj h
    have hstays : (rhoPi a).grid 0 0 = a.grid 0 0 := hother 0 (by decide)
    rw [hstays, Grid.rhoPi, show turn (0 + 3 * 0) 0 = 0 by decide, rotl_zero]
    rfl
  · have hfill := cycle_fills x y h
    have hcarried : a.get 1 :: (cycleLanes.zip cycleTurns).map (fun step => a.get step.1) = (1 :: cycleLanes).map a.get := rfl
    have hmem : (a.grid (x + 3 * y) x, gridIndex x y, turn (x + 3 * y) x) ∈
        (a.get 1 :: (cycleLanes.zip cycleTurns).map fun step => a.get step.1).zip (cycleLanes.zip cycleTurns) := by
      rw [hcarried, List.zip_map_left]
      exact List.mem_map_of_mem hfill
    obtain ⟨hpos, hlt⟩ := cycle_turns _ (List.of_mem_zip hfill).2
    exact (hmet _ hmem).trans (rotateLeft_eq_rotl _ hpos hlt)

theorem grid_chi : (chi a).grid = a.grid.chi := by
  funext x y
  have hnext : columnIndex ((gridIndex x y).val + 1) = x + 1 := by decide +revert
  have hsecond : columnIndex ((gridIndex x y).val % 5 + 2) = x + 2 := by decide +revert
  have hrow : columnIndex ((gridIndex x y).val / 5) = y := by decide +revert
  simp only [Grid.chi, ← hnext, ← hsecond]
  rw [Lanes.grid, chi]
  simp only [Fin.getElem_fin, Vector.getElem_ofFn, laneAt_eq_grid, hrow]
  rfl

theorem grid_iota (constant : UInt64) : (iota constant a).grid = a.grid.iota constant := by
  funext x y
  have hfirst : (gridIndex x y).val = 0 ↔ x = 0 ∧ y = 0 := by decide +revert
  show (iota constant a)[gridIndex x y] = if x = 0 ∧ y = 0 then a[gridIndex x y] ^^^ constant else a[gridIndex x y]
  by_cases h : x = 0 ∧ y = 0
  · obtain ⟨rfl, rfl⟩ := h
    exact Vector.getElem_set_self _
  · rw [if_neg h]
    exact Vector.getElem_set_ne _ _ fun h0 => h (hfirst.1 h0.symm)

theorem grid_round (n : Nat) : (round a (roundConstant n)).grid = a.grid.round n := by
  rw [round, grid_iota, grid_chi, grid_rhoPi, grid_theta, Grid.round]

theorem grid_rounds : ∀ (rounds : List Nat) (a : Lanes),
    ((rounds.map roundConstant).foldl round a).grid = rounds.foldl Grid.round a.grid
  | [], _ => rfl
  | n :: rounds, a => by
    rw [List.map_cons, List.foldl_cons, List.foldl_cons, grid_rounds rounds, grid_round]

/-- **The permutation is 24 rounds of the step mappings,** on every state, all of whose lanes are in the grid.  The mapping of
rho and pi moves the lane `(x, y)` to `(y, 2 x + 3 y)`, turned by the amount that the walk of the lanes gives it, and the
first lane is not turned. -/
theorem permute_eq_rounds (a : Lanes) :
    (permute a).grid = (List.range 24).foldl Grid.round a.grid ∧
    (∀ i : Fin 25, ∃ x y, gridIndex x y = i) ∧
    (∀ (A : Grid) (x y : Fin 5), A.rhoPi y (2 * x + 3 * y) = rotl (A x y) (turn x y)) ∧
    turn 0 0 = 0 ∧
    ∀ t : Fin 24, turn (walked t).1 (walked t).2 = (t + 1) * (t + 2) / 2 % 64 := by
  refine ⟨?_, by decide, fun A x y => ?_, by decide, by decide⟩
  · rw [permute, roundConstants_eq, grid_rounds]
  · have hsource : y + 3 * (2 * x + 3 * y) = x := by decide +revert
    rw [Grid.rhoPi, hsource]

end Keccak
end SignIn
