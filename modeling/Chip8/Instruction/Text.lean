import Chip8.Instruction

/-!
# Instructions as text

An instruction is written as its name, followed by its operands with their names in braces. The
names are those under which the journal reports instructions.
-/

namespace Chip8

/-- The name of an operation on two registers. -/
def AluOp.name : AluOp → String
  | copy => "Assign"
  | or => "Or"
  | and => "And"
  | xor => "Xor"
  | add => "Add"
  | sub => "Sub"
  | shiftRight => "ShiftRight"
  | subFrom => "SubReverse"
  | shiftLeft => "ShiftLeft"

/-- The name of an operation on one register. -/
def RegisterOp.name : RegisterOp → String
  | getDelay => "GetDelayTimer"
  | awaitKey => "AwaitKeyPress"
  | setDelay => "SetDelayTimer"
  | setSound => "SetSoundTimer"
  | addToIndex => "AddVxToI"
  | pointToGlyph => "SetIToSprite"
  | storeDigits => "StoreBCD"
  | storeRegisters => "StoreV0ToVx"
  | loadRegisters => "FillV0ToVx"

namespace Instruction

/-- An operand: the name of an operation, or a number. -/
inductive Operand where
  | op (name : String)
  | number (value : Nat)

/-- The written form of an operand; numbers are decimal. -/
def Operand.render : Operand → String
  | .op name => name
  | .number value => toString value

/-- The name of an instruction. -/
def name : Instruction → String
  | clear => "Clear"
  | ret => "Return"
  | jump _ => "Jump"
  | call _ => "Call"
  | skipIfEqual _ _ => "SkipIfEqual"
  | skipIfNotEqual _ _ => "SkipIfNotEqual"
  | skipIfSame _ _ => "SkipIfRegistersEqual"
  | set _ _ => "Set"
  | add _ _ => "Add"
  | alu _ _ _ => "Arithmetic"
  | skipIfDifferent _ _ => "SkipIfRegistersNotEqual"
  | setIndex _ => "SetIndex"
  | jumpPlus _ => "JumpWithOffset"
  | random _ _ => "Random"
  | draw _ _ _ => "Draw"
  | skipIfHeld _ => "SkipIfPressed"
  | skipIfNotHeld _ => "SkipIfNotPressed"
  | register _ _ => "Special"

/-- The operands of an instruction with their names, in the order in which they are written. -/
def operands : Instruction → List (String × Operand)
  | clear | ret => []
  | jump nnn | call nnn | setIndex nnn | jumpPlus nnn => [("nnn", .number nnn.toNat)]
  | skipIfEqual x nn | skipIfNotEqual x nn | set x nn | add x nn | random x nn =>
    [("x", .number x), ("nn", .number nn.toNat)]
  | skipIfSame x y | skipIfDifferent x y => [("x", .number x), ("y", .number y)]
  | alu op x y => [("op", .op op.name), ("x", .number x), ("y", .number y)]
  | draw x y n => [("x", .number x), ("y", .number y), ("n", .number n)]
  | skipIfHeld x | skipIfNotHeld x => [("x", .number x)]
  | register op x => [("op", .op op.name), ("x", .number x)]

/-- The written form of an instruction. -/
def render (i : Instruction) : String :=
  match i.operands with
  | [] => i.name
  | operands =>
    i.name ++ " \x7b "
      ++ ", ".intercalate (operands.map fun (name, operand) => name ++ ": " ++ operand.render)
      ++ " \x7d"

end Instruction

end Chip8
