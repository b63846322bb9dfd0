/-!
# Instructions

The instruction set of the machine. An instruction names registers by number, and the constants
that it holds are a byte `nn`, an address `nnn`, or the number of rows of a sprite.

Two families of instructions act on registers alone and have types of their own: `AluOp` combines
two registers, `RegisterOp` joins one register with the timers, the keypad, the index register or
memory.
-/

namespace Chip8

/-- Operations that combine register `x` with register `y` and leave the result in `x`. -/
inductive AluOp where
  /-- The value of `y`. -/
  | copy
  /-- The bits set in either register. -/
  | or
  /-- The bits set in both registers. -/
  | and
  /-- The bits set in exactly one of the registers. -/
  | xor
  /-- The sum; the flag is the carry. -/
  | add
  /-- `x` less `y`; the flag says that nothing was borrowed. -/
  | sub
  /-- `y` halved; the flag is the bit that was shifted out. -/
  | shiftRight
  /-- `y` less `x`; the flag says that nothing was borrowed. -/
  | subFrom
  /-- `y` doubled; the flag is the bit that was shifted out. -/
  | shiftLeft
  deriving DecidableEq, Repr

/-- Operations on the single register `x`. -/
inductive RegisterOp where
  /-- Takes the delay timer into the register. -/
  | getDelay
  /-- Waits for a key and takes it into the register. -/
  | awaitKey
  /-- Sets the delay timer from the register. -/
  | setDelay
  /-- Sets the sound timer from the register. -/
  | setSound
  /-- Adds the register to the index register. -/
  | addToIndex
  /-- Points the index register at the glyph of the register's low digit. -/
  | pointToGlyph
  /-- Stores the three decimal digits of the register. -/
  | storeDigits
  /-- Stores the registers from the first up to this one. -/
  | storeRegisters
  /-- Loads the registers from the first up to this one. -/
  | loadRegisters
  deriving DecidableEq, Repr

/-- One instruction with its operands. -/
inductive Instruction where
  /-- Clears the screen. -/
  | clear
  /-- Returns from a subroutine. -/
  | ret
  /-- Continues at `nnn`. -/
  | jump (nnn : UInt16)
  /-- Calls the subroutine at `nnn`. -/
  | call (nnn : UInt16)
  /-- Skips an instruction if register `x` is `nn`. -/
  | skipIfEqual (x : Nat) (nn : UInt8)
  /-- Skips an instruction if register `x` is not `nn`. -/
  | skipIfNotEqual (x : Nat) (nn : UInt8)
  /-- Skips an instruction if the registers are equal. -/
  | skipIfSame (x y : Nat)
  /-- Puts `nn` into register `x`. -/
  | set (x : Nat) (nn : UInt8)
  /-- Adds `nn` to register `x`, without a carry. -/
  | add (x : Nat) (nn : UInt8)
  /-- Combines two registers. -/
  | alu (op : AluOp) (x y : Nat)
  /-- Skips an instruction if the registers differ. -/
  | skipIfDifferent (x y : Nat)
  /-- Points the index register at `nnn`. -/
  | setIndex (nnn : UInt16)
  /-- Continues at `nnn` plus register 0. -/
  | jumpPlus (nnn : UInt16)
  /-- Puts a random byte, masked with `nn`, into register `x`. -/
  | random (x : Nat) (nn : UInt8)
  /-- Draws a sprite of `n` rows at the point that registers `x` and `y` name. -/
  | draw (x y n : Nat)
  /-- Skips an instruction if the key that register `x` names is held. -/
  | skipIfHeld (x : Nat)
  /-- Skips an instruction if the key that register `x` names is not held. -/
  | skipIfNotHeld (x : Nat)
  /-- Acts on register `x`. -/
  | register (op : RegisterOp) (x : Nat)
  deriving DecidableEq, Repr

/-- Where execution continues after an instruction. The program counter has moved past the
instruction by then. -/
inductive Flow where
  /-- At the following instruction. -/
  | next
  /-- At the one after it. -/
  | skip
  /-- At an address. -/
  | jump (target : UInt16)
  deriving DecidableEq, Repr

namespace Flow

/-- Skips an instruction where the condition holds. -/
def skipIf (condition : Bool) : Flow :=
  if condition then .skip else .next

/-- The program counter from which execution continues. -/
def apply : Flow → UInt16 → UInt16
  | next, pc => pc
  | skip, pc => pc + 2
  | jump target, _ => target

/-- The written form of a flow: its name, and its target in decimal. -/
def render : Flow → String
  | next => "Next"
  | skip => "Skip"
  | jump target => "Jump(" ++ toString target.toNat ++ ")"

end Flow

end Chip8
