import Chip8.Instruction
import Chip8.Instruction.Word
import Chip8.Memory

/-!
# Decoding

`Instruction.decode` reads the instruction that a word stands for. A word whose first digit leaves
later digits open takes its operands from them; the other words are compared digit by digit, and
one that matches no pattern stands for nothing.
-/

namespace Chip8

/-- The operation on two registers with a given last digit. -/
def AluOp.ofCode? : Nat → Option AluOp
  | 0x0 => some .copy
  | 0x1 => some .or
  | 0x2 => some .and
  | 0x3 => some .xor
  | 0x4 => some .add
  | 0x5 => some .sub
  | 0x6 => some .shiftRight
  | 0x7 => some .subFrom
  | 0xE => some .shiftLeft
  | _ => none

/-- The operation on one register with given last two digits. -/
def RegisterOp.ofCode? : Nat → Option RegisterOp
  | 0x07 => some .getDelay
  | 0x0A => some .awaitKey
  | 0x15 => some .setDelay
  | 0x18 => some .setSound
  | 0x1E => some .addToIndex
  | 0x29 => some .pointToGlyph
  | 0x33 => some .storeDigits
  | 0x55 => some .storeRegisters
  | 0x65 => some .loadRegisters
  | _ => none

namespace Instruction

/-- The instruction that a word stands for, if any. -/
def decode? (w : UInt16) : Option Instruction :=
  match Word.kind w with
  | 0x0 =>
    if w = 0x00E0 then some clear
    else if w = 0x00EE then some ret
    else none
  | 0x1 => some (jump (Word.nnn w))
  | 0x2 => some (call (Word.nnn w))
  | 0x3 => some (skipIfEqual (Word.x w) (Word.nn w))
  | 0x4 => some (skipIfNotEqual (Word.x w) (Word.nn w))
  | 0x5 => if Word.n w = 0 then some (skipIfSame (Word.x w) (Word.y w)) else none
  | 0x6 => some (set (Word.x w) (Word.nn w))
  | 0x7 => some (add (Word.x w) (Word.nn w))
  | 0x8 => (AluOp.ofCode? (Word.n w)).map fun op => alu op (Word.x w) (Word.y w)
  | 0x9 => if Word.n w = 0 then some (skipIfDifferent (Word.x w) (Word.y w)) else none
  | 0xA => some (setIndex (Word.nnn w))
  | 0xB => some (jumpPlus (Word.nnn w))
  | 0xC => some (random (Word.x w) (Word.nn w))
  | 0xD => some (draw (Word.x w) (Word.y w) (Word.n w))
  | 0xE =>
    if Word.nn w = 0x9E then some (skipIfHeld (Word.x w))
    else if Word.nn w = 0xA1 then some (skipIfNotHeld (Word.x w))
    else none
  | 0xF => (RegisterOp.ofCode? (Word.nn w).toNat).map fun op => register op (Word.x w)
  | _ => none

/-- The instruction that a word stands for, or the word as the reason that there is none. -/
def decode (w : UInt16) : Except WordError Instruction :=
  match decode? w with
  | some instruction => .ok instruction
  | none => .error (.unsupported w)

end Instruction

end Chip8
