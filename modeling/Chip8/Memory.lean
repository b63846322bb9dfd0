import Chip8.Text.Hexadecimal

/-!
# Memory

The memory of the machine is a row of bytes with addresses from zero on. Words are read from it
with the more significant byte first.

* `Memory.wordAt` reads the word at an address, and `Memory.readWord` the word at a pointer of 64 bits, as
  a slice of two bytes.
* `Memory.checkBlock` refuses a block of bytes that is not wholly inside, `Memory.block` lists the
  bytes of one and `Memory.write` replaces them.
* `Memory.loadProgram` puts a program where execution begins, if `Memory.checkProgram` allows its
  length.

A word that cannot be read, or that is no instruction, is a `WordError`; a block that does not fit
is a `MemoryError`.
-/

namespace Chip8

/-- What can be wrong with a word that is to be executed. -/
inductive WordError where
  /-- The word is no instruction. -/
  | unsupported (word : UInt16)
  /-- No word begins at this address of that many bytes. -/
  | outside (pointer len : Nat)
  deriving DecidableEq, Repr

/-- The wording of what is wrong with a word. -/
def WordError.message : WordError → String
  | .unsupported word =>
    "An unsupported opcode was used " ++ Hexadecimal.padded word.toNat ++ "."
  | .outside pointer len =>
    "Pointer location invalid there can not be an opcode at " ++ toString pointer
      ++ ", if data len is " ++ toString len

/-- What can be wrong with a block of memory. -/
inductive MemoryError where
  /-- The block reaches `address`, the first one of it that does not exist. -/
  | outOfBounds (address len : Nat)
  /-- A program is longer than the memory from the program start on. -/
  | programTooLarge (size available : Nat)
  deriving DecidableEq, Repr

/-- The wording of what is wrong with a block. -/
def MemoryError.message : MemoryError → String
  | .outOfBounds address len =>
    "Address " ++ Hexadecimal.padded address ++ " is out of bounds for a memory of "
      ++ toString len ++ " bytes"
  | .programTooLarge size available =>
    "Rom of " ++ toString size ++ " bytes does not fit into the " ++ toString available
      ++ " bytes of program memory"

/-- A row of bytes with addresses from zero on. -/
structure Memory where
  bytes : Array UInt8
  deriving DecidableEq, Repr

namespace Memory

/-- The number of bytes of a machine's memory. -/
def capacity : Nat := 0x1000

/-- The highest address that the twelve bits of an instruction can name. -/
def highestOperand : Nat := 0x0FFF

/-- Where programs are loaded and execution begins. -/
def programStart : UInt16 := 0x0200

/-- The bytes of one word. -/
def wordBytes : Nat := 2

/-- The memory of a new machine: zeros. -/
def blank : Memory := ⟨Array.replicate capacity 0⟩

/-- The number of bytes. -/
def size (m : Memory) : Nat := m.bytes.size

/-- The word whose more significant byte is at `pointer`. -/
def wordAt (m : Memory) (pointer : Nat) : Except WordError UInt16 :=
  match m.bytes[pointer]?, m.bytes[pointer + 1]? with
  | some high, some low => .ok (high.toUInt16 * 256 + low.toUInt16)
  | _, _ => .error (.outside pointer m.size)

/-- Refuses a block of `len` bytes from `start` on that is not wholly inside, and names the first
address that does not exist. -/
def checkBlock (m : Memory) (start len : Nat) : Except MemoryError Unit :=
  if start + len ≤ m.size then .ok () else .error (.outOfBounds (max start m.size) m.size)

/-- The bytes of a block. -/
def block (m : Memory) (start len : Nat) : List UInt8 :=
  (m.bytes.extract start (start + len)).toList

/-- The sum of two pointers of 64 bits, or the highest pointer where that is too large. -/
def saturatingAdd (a b : UInt64) : UInt64 :=
  if a.toNat + b.toNat < 0x10000000000000000 then a + b else 0xFFFFFFFFFFFFFFFF

/-- The bytes from `start` up to `stop`, if all of them are inside. -/
def slice? (m : Memory) (start stop : UInt64) : Option (List UInt8) :=
  if start ≤ stop ∧ stop.toNat ≤ m.size then
    some (m.block start.toNat (stop.toNat - start.toNat))
  else none

/-- The word whose two bytes are the slice from a pointer on. -/
def readWord (m : Memory) (pointer : UInt64) : Except WordError UInt16 :=
  match m.slice? pointer (saturatingAdd pointer 2) with
  | some [high, low] => .ok (high.toUInt16 * 256 + low.toUInt16)
  | _ => .error (.outside pointer.toNat m.size)

/-- Puts bytes into memory one after the other from `start` on; what lies beyond the end is lost. -/
def write (m : Memory) (start : Nat) : List UInt8 → Memory
  | [] => m
  | b :: rest => write ⟨m.bytes.setIfInBounds start b⟩ (start + 1) rest

/-- The bytes that a program can fill. -/
def programSpace (m : Memory) : Nat := m.size - programStart.toNat

/-- Refuses a program of more bytes than there is room for. -/
def checkProgram (m : Memory) (len : Nat) : Except MemoryError Unit :=
  if len ≤ m.programSpace then .ok () else .error (.programTooLarge len m.programSpace)

/-- Puts a program where execution begins. A program may hold any bytes, but it has to fit. -/
def loadProgram (m : Memory) (program : List UInt8) : Except MemoryError Memory :=
  (m.checkProgram program.length).map fun _ => m.write programStart.toNat program

/-! ### Sizes -/

@[simp] theorem size_blank : blank.size = capacity := Array.size_replicate

/-- Writing changes bytes, and never how many there are. -/
@[simp] theorem size_write (m : Memory) (start : Nat) (bytes : List UInt8) :
    (m.write start bytes).size = m.size := by
  induction bytes generalizing m start with
  | nil => rfl
  | cons b rest ih =>
    rw [write, ih]
    exact Array.size_setIfInBounds

/-- What lies before or behind the bytes that are written stays as it is. -/
theorem getElem?_write_of_outside (m : Memory) {start address : Nat} {bytes : List UInt8}
    (h : address < start ∨ start + bytes.length ≤ address) :
    (m.write start bytes).bytes[address]? = m.bytes[address]? := by
  induction bytes generalizing m start with
  | nil => rfl
  | cons b rest ih =>
    rw [List.length_cons] at h
    rw [write, ih ⟨m.bytes.setIfInBounds start b⟩ (by omega)]
    exact Array.getElem?_setIfInBounds_ne (by omega)

/-- A word can be read exactly where both of its bytes are inside. -/
theorem wordAt_isOk_iff (m : Memory) (pointer : Nat) :
    (∃ word, m.wordAt pointer = .ok word) ↔ pointer + wordBytes ≤ m.size := by
  unfold wordAt size wordBytes
  constructor
  · rintro ⟨word, h⟩
    split at h
    · next hlow =>
      have := (Array.getElem?_eq_some_iff.mp hlow).1
      omega
    · cases h
  · intro h
    rw [Array.getElem?_eq_getElem (show pointer < m.bytes.size by omega),
      Array.getElem?_eq_getElem (show pointer + 1 < m.bytes.size by omega)]
    exact ⟨_, rfl⟩

theorem wordAt_of_getElem? {m : Memory} {pointer : Nat} {high low : UInt8}
    (hhigh : m.bytes[pointer]? = some high) (hlow : m.bytes[pointer + 1]? = some low) :
    m.wordAt pointer = .ok (high.toUInt16 * 256 + low.toUInt16) := by
  rw [wordAt, hhigh, hlow]

/-! ### What does not fit -/

theorem wordAt_eq_error_iff {m : Memory} {pointer : Nat} {cause : WordError} :
    m.wordAt pointer = .error cause ↔
      m.size < pointer + wordBytes ∧ cause = .outside pointer m.size := by
  have hinside := m.wordAt_isOk_iff pointer
  constructor
  · intro h
    have hpast : ¬ pointer + wordBytes ≤ m.size := by
      rw [← hinside, h]
      simp
    refine ⟨Nat.lt_of_not_le hpast, ?_⟩
    rw [wordAt] at h
    split at h
    · cases h
    · cases h
      rfl
  · rintro ⟨hpast, rfl⟩
    cases hword : m.wordAt pointer with
    | ok word => exact absurd (hinside.mp ⟨word, hword⟩) (Nat.not_le_of_lt hpast)
    | error cause =>
      rw [wordAt] at hword
      split at hword
      · cases hword
      · cases hword
        rfl

theorem checkBlock_eq_ok_iff {m : Memory} {start len : Nat} :
    m.checkBlock start len = .ok () ↔ start + len ≤ m.size := by
  simp [checkBlock]

theorem checkBlock_eq_error_iff {m : Memory} {start len : Nat} {cause : MemoryError} :
    m.checkBlock start len = .error cause ↔
      m.size < start + len ∧ cause = .outOfBounds (max start m.size) m.size := by
  rw [checkBlock]
  split
  · next hfits => simp [Nat.not_lt_of_le hfits]
  · next hpast => simp [Nat.lt_of_not_le hpast, eq_comm]

end Memory

end Chip8
