import Chip8.Blocks
import Chip8.Fault

/-!
# The screen

A grid of cells that are lit or dark, stored row after row: the cell in column `x` of row `y` has
the number `x + y * cols`.

* `Screen.create` makes a dark screen, unless it would have more cells than can be stored.
* `Screen.toggle` inverts one cell and says whether that switched it off.
* `Screen.clear` switches every cell off.
* `Screen.lines` lists the rows.

Coordinates may lie off the grid. `Screen.pullIn` brings one that is less than a whole span
outside back in, and no more than that: what is still outside afterwards either names a cell of
another row or no cell at all, which is a fault.
-/

namespace Chip8

/-- A grid of lit and dark cells. -/
structure Screen where
  rows : Nat
  cols : Nat
  /-- The cells row after row, `true` where lit. -/
  cells : Array Bool
  deriving DecidableEq, Repr

namespace Screen

/-- A dark screen. A screen has at least one row and one column. -/
def blank (rows cols : Nat) : Screen :=
  { rows := max rows 1
    cols := max cols 1
    cells := Array.replicate (max rows 1 * max cols 1) false }

/-- A dark screen, where so many cells can be stored. -/
def create (rows cols : Nat) : Except Fault Screen :=
  (checkStorage (max rows 1 * max cols 1)).map fun _ => blank rows cols

/-- The number of the cell in column `x` of row `y`. -/
def cellNumber (s : Screen) (x y : Nat) : Nat := x + y * s.cols

/-- Is the cell in column `x` of row `y` lit? -/
def get (s : Screen) (x y : Nat) : Except Fault Bool :=
  match s.cells[s.cellNumber x y]? with
  | some lit => .ok lit
  | none => .error .noSuchCell

/-- The rows from top to bottom. -/
def lines (s : Screen) : List (List Bool) :=
  blocks (max s.cols 1) s.cells.toList

/-- A coordinate moved by one span towards the grid, where it lies outside. -/
def pullIn (value : Int) (span : Nat) : Int :=
  if value ≥ span then value - span
  else if value < 0 then value + span
  else value

/-- Inverts the cell with a given number, and says whether it was lit. -/
def toggleCell (s : Screen) (number : Nat) : Except Fault (Screen × Bool) :=
  match s.cells[number]? with
  | some lit => .ok ({ s with cells := s.cells.setIfInBounds number (!lit) }, lit)
  | none => .error .noSuchCell

/-- Inverts the cell in column `x` of row `y`, and says whether that switched it off. -/
def toggle (s : Screen) (x y : Int) : Except Fault (Screen × Bool) :=
  let x := pullIn x s.cols
  let y := pullIn y s.rows
  if 0 ≤ x ∧ 0 ≤ y then s.toggleCell (s.cellNumber x.toNat y.toNat)
  else .error .noSuchCell

/-- Switches every cell off. -/
def clear (s : Screen) : Screen :=
  { s with cells := Array.replicate (s.rows * s.cols) false }

/-! ### Sizes -/

theorem size_blank (rows cols : Nat) :
    (blank rows cols).cells.size = (blank rows cols).rows * (blank rows cols).cols :=
  Array.size_replicate

/-- A screen that can be made is dark. -/
theorem eq_blank_of_create {rows cols : Nat} {s : Screen} (h : create rows cols = .ok s) :
    s = blank rows cols := by
  unfold create checkStorage at h
  split at h
  · cases h
    rfl
  · cases h

theorem size_clear (s : Screen) : s.clear.cells.size = s.clear.rows * s.clear.cols :=
  Array.size_replicate

/-- A coordinate less than one span outside the grid is brought back to the congruent one inside. -/
theorem pullIn_eq_emod {value : Int} {span : Nat} (hlow : -span ≤ value)
    (hhigh : value < 2 * span) : pullIn value span = value % span := by
  unfold pullIn
  split
  · next h =>
    rw [← Int.sub_emod_right, Int.emod_eq_of_lt (by omega) (by omega)]
  · split
    · next h =>
      rw [← Int.add_emod_right, Int.emod_eq_of_lt (by omega) (by omega)]
    · rw [Int.emod_eq_of_lt (by omega) (by omega)]

end Screen

end Chip8
