/-!
# The operands of a word

A word of 16 bits consists of four hexadecimal digits, and an instruction takes its operands from
fixed places among them: the first digit is the kind of the instruction, the second and third name
registers, and the last one, two or three digits are constants.
-/

namespace Chip8.Word

/-- The first digit: the kind of instruction. -/
def kind (w : UInt16) : Nat := w.toNat / 0x1000

/-- The second digit: a register. -/
def x (w : UInt16) : Nat := w.toNat / 0x100 % 0x10

/-- The third digit: a register. -/
def y (w : UInt16) : Nat := w.toNat / 0x10 % 0x10

/-- The last digit. -/
def n (w : UInt16) : Nat := w.toNat % 0x10

/-- The last two digits. -/
def nn (w : UInt16) : UInt8 := UInt8.ofNat (w.toNat % 0x100)

/-- The last three digits: an address. -/
def nnn (w : UInt16) : UInt16 := UInt16.ofNat (w.toNat % 0x1000)

end Chip8.Word
