import Chip8.Blocks
import Chip8.Machine
import Chip8.Text.Hexadecimal

/-!
# The dump of a machine

`Machine.dump` writes out everything that decides how a machine goes on: its registers, its call
stack, the held keys and its memory. Columns of values are written in rows that begin with the range
of positions that they cover.

* `Dump.table` writes a column of values in rows of eight. The registers, the call stack (filled up
  with zeros) and the sixteen keys are tables.
* `MemoryRow.ofBytes` cuts memory into rows of eight words. Neighbouring rows of nothing but zeros
  become a single row, which is written with dots in place of its words.
* `MemoryRow.print` makes the same rows in one pass over memory, from words that it reads one by one, and
  `Machine.format` writes a dump with them. Reading a word can fail, so both have a result only if every
  word is there.
-/

namespace Chip8

/-- A row of the memory listing: the first and the last address that it covers, and its words. -/
structure MemoryRow where
  first : Nat
  last : Nat
  words : List UInt16
  deriving DecidableEq, Repr

namespace MemoryRow

/-- The bytes of a row that has not been merged with others. -/
def span : Nat := 16

/-- Has the row nothing but zeros? -/
def isBlank (r : MemoryRow) : Bool := r.words.all (· == 0)

/-- The words of some bytes, each with its more significant byte first. A last single byte makes no
word. -/
def wordsOf : List UInt8 → List UInt16
  | high :: low :: rest => (high.toUInt16 * 256 + low.toUInt16) :: wordsOf rest
  | _ => []

/-- One row for each block of bytes, the first of them at the given address. -/
def ofBlocks (address : Nat) : List (List UInt8) → List MemoryRow
  | [] => []
  | block :: rest =>
    { first := address, last := address + block.length - 1, words := wordsOf block }
      :: ofBlocks (address + block.length) rest

/-- Puts a row in front of others. If it and the row that follows have nothing but zeros, the two
become one. -/
def cons (r : MemoryRow) : List MemoryRow → List MemoryRow
  | next :: rest =>
    if r.isBlank && next.isBlank then { next with first := r.first } :: rest
    else r :: next :: rest
  | [] => [r]

/-- Merges neighbouring rows of nothing but zeros. -/
def merge (rows : List MemoryRow) : List MemoryRow := rows.foldr cons []

/-- The rows of a listing of some bytes. -/
def ofBytes (bytes : List UInt8) : List MemoryRow :=
  merge (ofBlocks 0 (blocks span bytes))

/-! ### Listing in one pass -/

/-- Reads the words of the block that begins at an address, up to its end or the end of memory. -/
def read (m : Memory) (first : Nat) : Except WordError MemoryRow :=
  let last := min (first + span) m.size - 1
  ((List.range' first ((last - first + 1) / 2) 2).mapM m.wordAt).map fun words =>
    { first, last, words }

/-- Adds a row to others, the last of which comes first. If both have nothing but zeros, the new row
takes the place of the last one and begins where that did. -/
def push (rows : List MemoryRow) (r : MemoryRow) : List MemoryRow :=
  match rows with
  | [] => [r]
  | last :: earlier =>
    if last.isBlank && r.isBlank then { r with first := last.first } :: earlier
    else r :: last :: earlier

/-- Lists memory in one pass. -/
def print (m : Memory) : Except WordError (List MemoryRow) :=
  ((List.range' 0 ((m.size + span - 1) / span) span).foldlM
    (fun rows first => (read m first).map (push rows)) []).map List.reverse

end MemoryRow

namespace Dump

/-- The range of positions that begins a row. -/
def range (first last : Nat) : String :=
  Hexadecimal.padded first ++ " - " ++ Hexadecimal.padded last ++ " :"

/-- What the lines of a section begin with. -/
def indent : String := "\t\t"

/-- The values in a row of a table. -/
def rowLength : Nat := 8

/-- The lines of a table: rows of eight values, which `write` writes out after their range. -/
def table {α : Type} (write : List α → String) (values : List α) : List String :=
  (blocks rowLength values).zipIdx.map fun (row, number) =>
    let first := number * rowLength
    indent ++ range first (first + row.length - 1) ++ write row

/-- A row of numbers, each after a blank. -/
def numberRow : List Nat → String
  | [] => ""
  | n :: rest => " " ++ Hexadecimal.padded n ++ numberRow rest

/-- The word for a truth value, filled up with blanks to the width of a number. -/
def flagCell (b : Bool) : String := if b then "true  " else "false "

/-- A row of truth values, each after a blank. The last one is not filled up. -/
def flagRow : List Bool → String
  | [] => ""
  | [b] => " " ++ if b then "true" else "false"
  | b :: rest => " " ++ flagCell b ++ flagRow rest

/-- What stands for the words of a row of zeros. It is as wide as eight words. -/
def filler : String :=
  let gap := String.ofList (List.replicate 20 ' ')
  Hexadecimal.padded 0 ++ gap ++ "..." ++ gap ++ Hexadecimal.padded 0

/-- The line of a row of the memory listing. -/
def memoryLine (r : MemoryRow) : String :=
  indent ++ range r.first r.last ++
    if r.isBlank then " " ++ filler else numberRow (r.words.map UInt16.toNat)

/-- A single number on a line of its own. -/
def single (n : Nat) : List String := [indent ++ Hexadecimal.padded n]

/-- The lines of a section below its title. -/
def titled (title : String) (lines : List String) : List String :=
  ("\t" ++ title ++ " :") :: lines

end Dump

namespace Machine

/-- The call stack filled up with zeros to its capacity, in the order in which its addresses were
pushed. -/
def filledStack (m : Machine) : List Nat :=
  (m.stack.entries.map UInt16.toNat ++ List.replicate CallStack.capacity 0).take
    CallStack.capacity

/-- For each key of the keypad, whether it is held. -/
def keyFlags (m : Machine) : List Bool :=
  let held := m.keypad.pressed.2
  (List.range Keypad.keyCount).map fun key => held.contains (UInt8.ofNat key)

/-- The lines of a dump that lists memory in the given rows. -/
def linesWith (m : Machine) (rows : List MemoryRow) : List String :=
  ["Machine \x7b"]
    ++ Dump.titled "Program Counter" (Dump.single m.pc.toNat)
    ++ Dump.titled "Opcode" (Dump.single m.opcode.toNat)
    ++ Dump.titled "Index Register" (Dump.single m.index.toNat)
    ++ Dump.titled "Delay Timer" (Dump.single m.timers.delay.toNat)
    ++ Dump.titled "Sound Timer" (Dump.single m.timers.sound.toNat)
    ++ Dump.titled "Register"
      (Dump.table Dump.numberRow (m.registers.toList.map UInt8.toNat))
    ++ Dump.titled "Stack" (Dump.table Dump.numberRow m.filledStack)
    ++ Dump.titled "Keyboard" (Dump.table Dump.flagRow m.keyFlags)
    ++ Dump.titled "Memory" (rows.map Dump.memoryLine)
    ++ ["\x7d"]

/-- The lines of a dump. -/
def dumpLines (m : Machine) : List String :=
  m.linesWith (MemoryRow.ofBytes m.memory.bytes.toList)

/-- The dump of a machine. -/
def dump (m : Machine) : String := "\n".intercalate m.dumpLines

/-- The text of a dump, whose words are read from memory one after the other. -/
def format (m : Machine) : Except WordError String :=
  (MemoryRow.print m.memory).map fun rows => "\n".intercalate (m.linesWith rows)

end Machine

end Chip8
