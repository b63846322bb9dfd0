/-!
# Settings

What a user chooses when a machine is made: the size of its screen and how often per second it
executes an instruction and paints a frame. A setting is kept as it was given; whoever uses it
decides what a zero means.
-/

namespace Chip8

/-- The choices made when a machine is created. -/
structure Settings where
  /-- Rows of the screen. -/
  rows : Nat := 32
  /-- Columns of the screen. -/
  cols : Nat := 64
  /-- Instructions per second. -/
  frequency : Nat := 500
  /-- Frames per second. -/
  fps : Nat := 60
  deriving DecidableEq, Repr

namespace Settings

/-- The nanoseconds between two events that occur `rate` times per second. The period is a whole
number of microseconds, and a rate of zero counts as one. -/
def period (rate : Nat) : Nat :=
  1000000 / max rate 1 * 1000

/-- The nanoseconds from one instruction to the next. -/
def instructionInterval (s : Settings) : Nat :=
  period s.frequency

/-- The nanoseconds from one painted frame to the next. -/
def frameInterval (s : Settings) : Nat :=
  period s.fps

end Settings

end Chip8
