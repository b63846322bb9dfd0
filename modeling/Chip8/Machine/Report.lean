import Chip8.Instruction.Text
import Chip8.Machine.Step

/-!
# What the journal says about a step

The records of a step follow from the machine before the step. Each instruction is reported with the
word that was fetched last, before it is carried out; calls, returns and key waits add records of
their own.
-/

namespace Chip8.Machine

/-- The records that an instruction adds while it is carried out. -/
def effectRecords (m : Machine) : Instruction → List Record
  | .call _ => m.stack.pushRecords m.pc
  | .ret =>
    m.stack.popRecords ++ match m.stack.pop with
      | .ok (address, _) => [⟨.debug, "pc " ++ Hexadecimal.plain address.toNat⟩]
      | .error _ => []
  | .register .awaitKey _ => [⟨.debug, "Waiting for a key press"⟩]
  | _ => []

/-- The records of carrying out an instruction. -/
def executeRecords (m : Machine) (instruction : Instruction) : List Record :=
  ⟨.debug, Hexadecimal.padded m.opcode.toNat ++ " - " ++ instruction.render⟩
    :: m.effectRecords instruction

/-- The records of one step. -/
def stepRecords (m : Machine) : List Record :=
  match fetch.run m with
  | .ok word fetched =>
    match Instruction.decode word with
    | .ok instruction => fetched.executeRecords instruction
    | .error cause =>
      [⟨.warn, "Skipping at " ++ Hexadecimal.padded (fetched.pc - 2).toNat ++ ": "
        ++ cause.message⟩]
  | .error _ _ => []

/-- The records of a run of at most so many steps. -/
def runRecords (m : Machine) : Nat → List Record
  | 0 => []
  | n + 1 =>
    m.stepRecords ++ match step.run m with
      | .ok _ m' => runRecords m' n
      | .error _ _ => []

end Chip8.Machine
