import Chip8.Screen

/-!
# Sprites

A sprite is a list of bytes, one for each of its rows; the bits of a byte are eight pixels, the most
significant one leftmost. `Screen.drawSprite` inverts the cell under each set pixel and says whether
one of them switched its cell off. Every pixel wraps around the edges on its own, so on a small
screen several pixels can meet in one cell.
-/

namespace Chip8.Screen

/-- The pixels in a row of a sprite. -/
def spriteWidth : Nat := 8

/-- Is the pixel in column `j` of a sprite's row set? -/
def pixel (row : UInt8) (j : Nat) : Bool :=
  row.toNat.testBit (spriteWidth - 1 - j)

/-- Draws the pixel in column `j` of a sprite's row at row `y` of the screen. The flag says whether
a cell has been switched off. -/
def drawPixel (left y : Nat) (row : UInt8) (drawn : Screen × Bool) (j : Nat) :
    Except Fault (Screen × Bool) :=
  if pixel row j then do
    let x ← checkedMod (← checkedAdd left j) drawn.1.cols
    let (screen, erased) ← drawn.1.toggle x y
    return (screen, drawn.2 || erased)
  else
    return drawn

/-- Draws row `i` of a sprite whose corner is at column `left` and row `top`. -/
def drawRow (left top : Nat) (drawn : Screen × Bool) (numbered : UInt8 × Nat) :
    Except Fault (Screen × Bool) := do
  let y ← checkedMod (← checkedAdd top numbered.2) drawn.1.rows
  (List.range spriteWidth).foldlM (drawPixel left y numbered.1) drawn

/-- Draws a sprite with its corner at column `left` and row `top`, and says whether a cell was
switched off. -/
def drawSprite (s : Screen) (left top : Nat) (sprite : List UInt8) :
    Except Fault (Screen × Bool) :=
  sprite.zipIdx.foldlM (drawRow left top) (s, false)

end Chip8.Screen
