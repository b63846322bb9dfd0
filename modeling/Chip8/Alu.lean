import Chip8.Instruction

/-!
# Arithmetic of two registers

`AluOp.apply` gives the result of an operation and, for those that have one, the new flag. Both
follow from the values of the registers before the operation.
-/

namespace Chip8

/-- The flag that stands for a truth value. -/
def flagOf (b : Bool) : UInt8 := if b then 1 else 0

theorem flagOf_eq_one_iff (b : Bool) : flagOf b = 1 ↔ b = true := by
  cases b with
  | true => exact ⟨fun _ => rfl, fun _ => rfl⟩
  | false => exact ⟨fun h => absurd h (by decide), fun h => by cases h⟩

theorem flagOf_cases (b : Bool) : flagOf b = 0 ∨ flagOf b = 1 := by
  cases b with
  | true => exact .inr rfl
  | false => exact .inl rfl

theorem toNat_flagOf (b : Bool) : (flagOf b).toNat = if b = true then 1 else 0 := by
  cases b <;> rfl

/-- The result and the flag of an operation on the values of registers `x` and `y`. -/
def AluOp.apply (op : AluOp) (a b : UInt8) : UInt8 × Option UInt8 :=
  match op with
  | .copy => (b, none)
  | .or => (a ||| b, none)
  | .and => (a &&& b, none)
  | .xor => (a ^^^ b, none)
  | .add => (a + b, some (flagOf (256 ≤ a.toNat + b.toNat)))
  | .sub => (a - b, some (flagOf (b ≤ a)))
  | .shiftRight => (b / 2, some (b % 2))
  | .subFrom => (b - a, some (flagOf (a ≤ b)))
  | .shiftLeft => (b * 2, some (b / 128))

end Chip8
