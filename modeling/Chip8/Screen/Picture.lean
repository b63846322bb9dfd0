import Chip8.Screen
import Chip8.Settings

/-!
# Pictures

A picture holds the frame that is to be painted, and lists its lit cells as points of a plane whose
vertical axis points up. The top row of the screen therefore has height zero, and every row below
it a negative height.
-/

namespace Chip8

/-- A lit cell: its column, and how many rows it lies below the top. -/
structure Point where
  column : Nat
  below : Nat
  deriving DecidableEq, Repr

namespace Point

/-- The horizontal coordinate. -/
def x (p : Point) : Int := p.column

/-- The vertical coordinate. -/
def y (p : Point) : Int := -p.below

/-- The written form of the coordinates, with one decimal place. The height is written as the
opposite of a distance, and keeps its sign also where that is zero. -/
def render (p : Point) : String × String :=
  (toString p.column ++ ".0", "-" ++ toString p.below ++ ".0")

end Point

/-- The frame that is to be painted. -/
structure Picture where
  frame : Screen
  deriving DecidableEq, Repr

namespace Picture

/-- A picture without lit cells, for screens of the given settings. -/
def create (settings : Settings) : Except Fault Picture :=
  (Screen.create settings.rows settings.cols).map fun frame => ⟨frame⟩

/-- Replaces the frame. Nothing of the former one remains, its size included. -/
def store (_ : Picture) (frame : Screen) : Picture := ⟨frame⟩

/-- The lit cells row after row, and from left to right within a row. -/
def points (p : Picture) : List Point :=
  p.frame.lines.zipIdx.flatMap fun (line, below) =>
    line.zipIdx.filterMap fun (lit, column) =>
      if lit then some ⟨column, below⟩ else none

end Picture

end Chip8
