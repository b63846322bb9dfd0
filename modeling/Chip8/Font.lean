import Chip8.Memory

/-!
# Fonts

A font draws each of the sixteen hexadecimal digits as a glyph of five rows, one byte a row. It
lies in low memory, one glyph after the other, so that the address of a glyph follows from its
digit.
-/

namespace Chip8

/-- One glyph: five rows of eight pixels, the leftmost pixel in the most significant bit. -/
abbrev Glyph := Vector UInt8 5

/-- A glyph for each of the sixteen digits. -/
abbrev Font := Vector Glyph 16

namespace Font

/-- Where the glyph of the digit zero begins. -/
def base : Nat := 0x50

/-- The bytes of one glyph. -/
def glyphBytes : Nat := 5

/-- The address at which the glyph of a digit begins. -/
def glyphAddress (digit : Nat) : Nat := base + glyphBytes * digit

/-- The font a machine is made with. -/
def builtIn : Font := #v[
  #v[0xF0, 0x90, 0x90, 0x90, 0xF0],
  #v[0x20, 0x60, 0x20, 0x20, 0x70],
  #v[0xF0, 0x10, 0xF0, 0x80, 0xF0],
  #v[0xF0, 0x10, 0xF0, 0x10, 0xF0],
  #v[0x90, 0x90, 0xF0, 0x10, 0x10],
  #v[0xF0, 0x80, 0xF0, 0x10, 0xF0],
  #v[0xF0, 0x80, 0xF0, 0x90, 0xF0],
  #v[0xF0, 0x10, 0x20, 0x40, 0x40],
  #v[0xF0, 0x90, 0xF0, 0x90, 0xF0],
  #v[0xF0, 0x90, 0xF0, 0x10, 0xF0],
  #v[0xF0, 0x90, 0xF0, 0x90, 0x90],
  #v[0xE0, 0x90, 0xE0, 0x90, 0xE0],
  #v[0xF0, 0x80, 0x80, 0x80, 0xF0],
  #v[0xE0, 0x90, 0x90, 0x90, 0xE0],
  #v[0xF0, 0x80, 0xF0, 0x80, 0xF0],
  #v[0xF0, 0x80, 0xF0, 0x80, 0x80]]

/-- The bytes of a font in the order in which they lie in memory. -/
def bytes (f : Font) : List UInt8 :=
  f.toList.flatMap Vector.toList

/-- The font made of eighty bytes, glyph by glyph. -/
def ofBytes? (bytes : List UInt8) : Option Font :=
  if h : bytes.length = 16 * glyphBytes then
    some (Vector.ofFn fun digit => Vector.ofFn fun row =>
      bytes.get ⟨glyphBytes * digit.val + row.val, by
        have := digit.isLt
        have := row.isLt
        simp only [glyphBytes] at *
        omega⟩)
  else none

end Font

/-- Puts a font where its glyphs are looked up. -/
def Memory.loadFont (m : Memory) (font : Font) : Memory :=
  m.write Font.base font.bytes

end Chip8
