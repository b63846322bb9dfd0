import Chip8.Instruction.Decode
import Chip8.Machine.Execute

/-!
# Steps and runs

A step fetches the word at the program counter, decodes it and carries it out. A word that is no
instruction is skipped. `Machine.run` makes steps until one of them halts.
-/

namespace Chip8.Machine

/-- Fetches the word at the program counter and moves the counter past it. -/
def fetch : Exec UInt16 := do
  let m ← get
  let opcode ← Exec.orError .word (m.memory.wordAt m.pc.toNat)
  modify fun m => { m with opcode, pc := m.pc + 2 }
  return opcode

/-- One step. -/
def step : Exec Notice := do
  let word ← fetch
  match Instruction.decode word with
  | .ok instruction => execute instruction
  | .error _ => return .unknown word

/-- Does the next step wait for a key? A wait that was cancelled in advance ends at once. -/
def aboutToWait (m : Machine) : Bool :=
  match m.memory.wordAt m.pc.toNat with
  | .ok word =>
    match Instruction.decode? word with
    | some (.register .awaitKey _) => m.keypad.rendezvous.begin?.isSome
    | _ => false
  | .error _ => false

/-- How a run went. -/
structure Run where
  machine : Machine
  /-- The program counter after each step, the one that halted included. -/
  pcs : Array UInt16 := #[]
  /-- How the last step ended, if there was one. -/
  last : Option (Except Halt Notice) := none

/-- Extends a run by at most so many steps. -/
def Run.extend (r : Run) : Nat → Run
  | 0 => r
  | n + 1 =>
    match step.run r.machine with
    | .ok notice machine =>
      Run.extend { machine, pcs := r.pcs.push machine.pc, last := some (.ok notice) } n
    | .error halt machine => { machine, pcs := r.pcs.push machine.pc, last := some (.error halt) }

/-- At most so many steps, up to the first that halts. -/
def run (m : Machine) (steps : Nat) : Run :=
  Run.extend { machine := m } steps

end Chip8.Machine
