import Chip8.CallStack
import Chip8.Font
import Chip8.Keypad
import Chip8.RandomSource
import Chip8.Registers
import Chip8.Screen
import Chip8.Settings
import Chip8.Timers

/-!
# The machine

A machine is its memory, its registers, its call stack, its screen and its timers, together with the
keypad and the source of random bytes that it draws on. A new machine has the built-in font in low
memory and its timers running. It is the size of the screen that decides whether a machine can be
made.
-/

namespace Chip8

/-- The state of a machine. -/
structure Machine where
  settings : Settings
  /-- The word that was fetched last. -/
  opcode : UInt16 := 0
  memory : Memory
  registers : Registers := Registers.cleared
  /-- The register that addresses memory. -/
  index : UInt16 := 0
  /-- The address of the word that will be fetched next. -/
  pc : UInt16 := Memory.programStart
  stack : CallStack := {}
  timers : Timers
  screen : Screen
  keypad : Keypad
  random : RandomSource

namespace Machine

/-- A new machine among the given surroundings. -/
def create (settings : Settings) (keypad : Keypad) (random : RandomSource) :
    Except Fault Machine :=
  (Screen.create settings.rows settings.cols).map fun screen =>
    { settings
      memory := Memory.blank.loadFont Font.builtIn
      timers := Timers.running
      screen
      keypad
      random }

/-- Loads a program into the machine at hand, if it fits. -/
def load (program : List UInt8) : EStateM MemoryError Machine Unit := do
  match (← get).memory.loadProgram program with
  | .ok memory => modify fun m => { m with memory }
  | .error cause => throw cause

/-- A machine with a program loaded. -/
def loadProgram (m : Machine) (program : List UInt8) : Except MemoryError Machine :=
  match (load program).run m with
  | .ok _ m => .ok m
  | .error cause _ => .error cause

/-- Loading a program changes memory only. -/
theorem loadProgram_eq_map (m : Machine) (program : List UInt8) :
    m.loadProgram program = (m.memory.loadProgram program).map fun memory => { m with memory } := by
  unfold loadProgram load
  rw [EStateM.run_bind, EStateM.run_get]
  dsimp only
  cases m.memory.loadProgram program with
  | ok memory => rfl
  | error cause => rfl

/-- A program that fits lies where execution begins. -/
theorem loadProgram_of_le {m : Machine} {program : List UInt8}
    (h : program.length ≤ m.memory.programSpace) :
    m.loadProgram program =
      .ok { m with memory := m.memory.write Memory.programStart.toNat program } := by
  rw [loadProgram_eq_map, Memory.loadProgram, Memory.checkProgram, if_pos h]
  rfl

/-- What the journal says about loading a program. -/
def loadRecords (m : Machine) (program : List UInt8) : List Record :=
  match m.memory.loadProgram program with
  | .ok _ => [⟨.info, "Loaded a rom of " ++ toString program.length ++ " bytes"⟩]
  | .error _ => []

/-- Replaces the font. -/
def loadFont (m : Machine) (font : Font) : Machine :=
  { m with memory := m.memory.loadFont font }

end Machine

end Chip8
