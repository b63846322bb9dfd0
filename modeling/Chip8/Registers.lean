/-!
# The register file

Sixteen registers of one byte. The last one is also the flag that arithmetic, drawing and the index
register set.
-/

namespace Chip8

/-- The sixteen registers. -/
abbrev Registers := Vector UInt8 16

namespace Registers

/-- The number of registers. -/
def count : Nat := 16

/-- The register that holds the flag. -/
def flag : Nat := count - 1

/-- All registers zero. -/
def cleared : Registers := Vector.replicate 16 0

/-- The registers with the first ones replaced by the given values. -/
def overwrite (r : Registers) (values : List UInt8) : Registers :=
  Vector.ofFn fun i => values[i.val]?.getD (r.get i)

/-- There is a register for the flag. -/
theorem flag_lt : flag < 16 := by decide

/-- The registers with another flag. -/
def withFlag (r : Registers) (value : UInt8) : Registers := r.set flag value flag_lt

theorem get_withFlag_self (r : Registers) (value : UInt8) : (r.withFlag value).get 15 = value :=
  Vector.getElem_set_self flag_lt

theorem get_withFlag_of_ne {k : Fin 16} (r : Registers) (value : UInt8) (hk : k ≠ 15) :
    (r.withFlag value).get k = r.get k :=
  Vector.getElem_set_ne flag_lt k.isLt fun heq => hk (Fin.ext heq.symm)

end Registers

end Chip8
