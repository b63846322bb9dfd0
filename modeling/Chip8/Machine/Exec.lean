import Chip8.Machine

/-!
# Computations on a machine

An instruction is carried out by a computation of type `Exec`, which reads and changes the machine
and may halt before its end. What it has changed by then stays changed, so whether an instruction
that fails leaves the machine as it was is a matter of the order of its actions.

A computation halts on an error, which is an event in the life of a program, or on a fault, which is
a use of the machine that its operations do not allow for.
-/

namespace Chip8

/-- The errors on which the execution of a program ends. -/
inductive ExecutionError where
  | word (cause : WordError)
  | stack (cause : CallStackError)
  | memory (cause : MemoryError)
  /-- The machine waited for a key and the wait was cancelled. -/
  | interrupted
  deriving DecidableEq, Repr

/-- The wording of an error, which quotes its cause. -/
def ExecutionError.message : ExecutionError → String
  | .word cause => "Invalid opcode state '" ++ cause.message ++ "'."
  | .stack cause => "Invalid stack state '" ++ cause.message ++ "'."
  | .memory cause => "Invalid memory access '" ++ cause.message ++ "'."
  | .interrupted => "Execution was interrupted while waiting for a key."

/-- Why a computation ended before its time. -/
inductive Halt where
  | fault (fault : Fault)
  | error (error : ExecutionError)
  deriving DecidableEq, Repr

/-- A computation that reads and changes a machine and may halt. -/
abbrev Exec := EStateM Halt Machine

namespace Exec

/-- Goes on with a value, or halts on a fault. -/
def checked {α : Type} : Except Fault α → Exec α
  | .ok a => pure a
  | .error f => throw (.fault f)

/-- Goes on with a value, or halts on an error that has the given cause. -/
def orError {ε α : Type} (error : ε → ExecutionError) : Except ε α → Exec α
  | .ok a => pure a
  | .error cause => throw (.error (error cause))

/-- The value of a register. -/
def register (x : Nat) : Exec UInt8 := do
  match (← get).registers[x]? with
  | some value => return value
  | none => throw (.fault (.noSuchRegister x))

/-- Sets a register. -/
def setRegister (x : Nat) (value : UInt8) : Exec Unit :=
  if h : x < 16 then modify fun m => { m with registers := m.registers.set x value h }
  else throw (.fault (.noSuchRegister x))

/-- Sets the flag. -/
def setFlag (value : UInt8) : Exec Unit := setRegister Registers.flag value

/-- The values of the registers from the first up to register `x`. -/
def registersUpTo (x : Nat) : Exec (List UInt8) := do
  if x < Registers.count then return (← get).registers.toList.take (x + 1)
  else throw (.fault (.noSuchRegister x))

/-- The address of the block of `len` bytes that the index register points at. A block that is not
wholly in memory is an error. -/
def indexedBlock (len : Nat) : Exec Nat := do
  let m ← get
  let _ ← checked (checkedAdd m.index.toNat len)
  orError .memory (m.memory.checkBlock m.index.toNat len)
  return m.index.toNat

/-- Replaces the bytes from an address on. -/
def writeBlock (start : Nat) (bytes : List UInt8) : Exec Unit :=
  modify fun m => { m with memory := m.memory.write start bytes }

/-! ### Registers that exist -/

/-- A register that exists is read without any effect. -/
theorem run_register {x : Nat} (h : x < 16) (m : Machine) :
    (register x).run m = .ok m.registers[x] m := by
  simp only [register, EStateM.run_bind, EStateM.run_get, Vector.getElem?_eq_getElem h]
  rfl

/-- Setting a register that exists changes that register only. -/
theorem run_setRegister {x : Nat} (h : x < 16) (value : UInt8) (m : Machine) :
    (setRegister x value).run m = .ok () { m with registers := m.registers.set x value h } := by
  unfold setRegister
  rw [dif_pos h]
  rfl

/-- The flag always exists. -/
theorem run_setFlag (value : UInt8) (m : Machine) :
    (setFlag value).run m = .ok () { m with registers := m.registers.withFlag value } :=
  run_setRegister Registers.flag_lt value m

end Exec

end Chip8
