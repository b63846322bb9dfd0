/-!
# The journal

The machine reports what it does as records of text, each with a level of urgency. A reader of the
journal chooses the least urgent level that it wants to see.
-/

namespace Chip8

/-- How urgent a record is, from the most urgent on. -/
inductive Level where
  | error
  | warn
  | info
  | debug
  | trace
  deriving DecidableEq, Repr

/-- The place of a level in the order of urgency; smaller is more urgent. -/
def Level.rank : Level → Nat
  | .error => 0
  | .warn => 1
  | .info => 2
  | .debug => 3
  | .trace => 4

/-- One line of the journal. -/
structure Record where
  level : Level
  text : String
  deriving DecidableEq, Repr

/-- The records that a reader sees who wants everything down to the level `least`. -/
def Record.visible (least : Level) (records : List Record) : List Record :=
  records.filter fun r => r.level.rank ≤ least.rank

end Chip8
