/-!
# Faults

A fault is a use of the machine outside the terms on which its operations work: a register or a
cell that does not exist, a remainder by zero, a sum too large for the 64-bit words that addresses
and coordinates are computed in, a row of more entries than can be stored. It is no error of the
program that runs: a program's errors have causes of their own and are reported to the user.

* `checkedAdd` is the addition of 64-bit words.
* `checkedMod` is the remainder.
* `checkedWord` narrows a number to a 16-bit word.
* `checkStorage` refuses rows of bytes or cells that are too long.
-/

namespace Chip8

/-- The ways in which an operation can be used outside its terms. -/
inductive Fault where
  /-- There is no register with this number. -/
  | noSuchRegister (index : Nat)
  /-- The coordinates name no cell of the screen. -/
  | noSuchCell
  /-- A remainder by zero was asked for. -/
  | divisionByZero
  /-- A number does not fit into its word. -/
  | overflow
  /-- A row of so many bytes or cells cannot be stored. -/
  | tooLong (entries : Nat)
  deriving DecidableEq, Repr

/-- The sum of two 64-bit words, where it is one again. -/
def checkedAdd (a b : Nat) : Except Fault Nat :=
  if a + b < 0x10000000000000000 then .ok (a + b) else .error .overflow

/-- The remainder of `a` by `b`, where `b` is not zero. -/
def checkedMod (a b : Nat) : Except Fault Nat :=
  if b = 0 then .error .divisionByZero else .ok (a % b)

/-- A number as a 16-bit word, where it is one. -/
def checkedWord (n : Nat) : Except Fault UInt16 :=
  if n < 0x10000 then .ok (UInt16.ofNat n) else .error .overflow

/-- The most bytes or cells that can be stored in a row. -/
def storageLimit : Nat := 0x7FFFFFFFFFFFFFFF

/-- Refuses a row of more entries than can be stored. -/
def checkStorage (entries : Nat) : Except Fault Unit :=
  if entries ≤ storageLimit then .ok () else .error (.tooLong entries)

end Chip8
