import Chip8.Memory
import Chip8.Proofs.Instruction.Operands

/-!
# Reading and writing blocks

Memory is seen byte by byte: `Memory.block` lists the bytes that are at its addresses, and after
`Memory.write` the bytes written are at theirs (`Memory.getElem?_write_of_inside`), while all others are
as before (`Memory.getElem?_write_of_outside`). So a block that lies in memory is read as it was written
(`Memory.block_write`), and blocks that lie apart can be written in either order (`Memory.write_comm`).
A word is read from the two bytes that it begins with (`Memory.bytes_of_wordAt`), and tells them
(`Memory.bytes_eq_of_wordAt`).
-/

namespace Chip8.Memory

variable {m : Memory} {start len k : Nat} {bytes : List UInt8}

/-- Memories are the same if they have the same byte at each address, and end at the same one. -/
theorem eq_of_bytes {m m' : Memory} (h : ∀ address : Nat, m'.bytes[address]? = m.bytes[address]?) :
    m' = m :=
  congrArg Memory.mk (Array.ext_getElem? h)

/-- Every address below the size has a byte. -/
theorem exists_byte {address : Nat} (h : address < m.size) : ∃ b, m.bytes[address]? = some b :=
  ⟨_, Array.getElem?_eq_getElem h⟩

theorem getElem?_block (hk : k < len) (hfits : start + len ≤ m.size) :
    (m.block start len)[k]? = m.bytes[start + k]? := by
  have hsize : m.bytes.size = m.size := rfl
  rw [block, Array.getElem?_toList, Array.getElem?_extract]
  rw [if_pos (by omega)]

theorem length_block (hfits : start + len ≤ m.size) : (m.block start len).length = len := by
  have hsize : m.bytes.size = m.size := rfl
  rw [block, Array.length_toList, Array.size_extract]
  omega

/-- What is written lies at its addresses. -/
theorem getElem?_write_of_inside (hk : k < bytes.length) (hfits : start + bytes.length ≤ m.size) :
    (m.write start bytes).bytes[start + k]? = bytes[k]? := by
  induction bytes generalizing m start k with
  | nil => exact absurd hk (Nat.not_lt_zero k)
  | cons b rest ih =>
    rw [List.length_cons] at hk hfits
    rw [write]
    cases k with
    | zero =>
      rw [getElem?_write_of_outside _ (.inl (by omega))]
      exact Array.getElem?_setIfInBounds_self_of_lt (Nat.lt_of_lt_of_le (by omega) hfits)
    | succ k =>
      have hsize : Memory.size ⟨m.bytes.setIfInBounds start b⟩ = m.size := Array.size_setIfInBounds
      have haddress : start + (k + 1) = start + 1 + k := by omega
      rw [List.getElem?_cons_succ, haddress]
      exact ih (by omega) (by omega)

/-- A block that lies in memory is read as it was written. -/
theorem block_write (hfits : start + bytes.length ≤ m.size) :
    (m.write start bytes).block start bytes.length = bytes := by
  have hfits' : start + bytes.length ≤ (m.write start bytes).size := by
    rw [size_write]
    exact hfits
  refine List.ext_getElem? fun k => ?_
  by_cases hk : k < bytes.length
  · rw [getElem?_block hk hfits', getElem?_write_of_inside hk hfits]
  · have hlen := length_block hfits'
    rw [List.getElem?_eq_none (by omega), List.getElem?_eq_none (by omega)]

theorem getElem?_write (hfits : start + bytes.length ≤ m.size) (address : Nat) :
    (m.write start bytes).bytes[address]? =
      if start ≤ address ∧ address < start + bytes.length then bytes[address - start]?
      else m.bytes[address]? := by
  split
  · next hinside =>
    obtain ⟨k, rfl⟩ := Nat.exists_eq_add_of_le hinside.1
    rw [getElem?_write_of_inside (by omega) hfits, Nat.add_sub_cancel_left]
  · next houtside => exact getElem?_write_of_outside m (by omega)

/-- Of two blocks, the first of which ends before the second begins, either can be written first. -/
theorem write_comm {start' : Nat} {bytes' : List UInt8} (hapart : start + bytes.length ≤ start')
    (hfits : start' + bytes'.length ≤ m.size) :
    (m.write start bytes).write start' bytes' = (m.write start' bytes').write start bytes := by
  refine eq_of_bytes fun address => ?_
  rw [getElem?_write (by rw [size_write]; omega), getElem?_write (by omega),
    getElem?_write (by rw [size_write]; omega), getElem?_write hfits]
  by_cases hinside : start ≤ address ∧ address < start + bytes.length
  · have houtside : ¬ (start' ≤ address ∧ address < start' + bytes'.length) := by omega
    rw [if_neg houtside, if_pos hinside, if_pos hinside]
  · rw [if_neg hinside, if_neg hinside]

/-- A word is read with its more significant byte first. -/
theorem bytes_of_wordAt {pointer : Nat} {word : UInt16} (h : m.wordAt pointer = .ok word) :
    ∃ high low, m.bytes[pointer]? = some high ∧ m.bytes[pointer + 1]? = some low ∧
      word.toNat = 256 * high.toNat + low.toNat := by
  rw [wordAt] at h
  split at h
  · next high low hhigh hlow =>
    cases h
    exact ⟨high, low, hhigh, hlow, Word.toNat_join high low⟩
  · cases h

/-- Where two memories have the same word, they have the same bytes. -/
theorem bytes_eq_of_wordAt {m' : Memory} {pointer : Nat} {word : UInt16}
    (h : m.wordAt pointer = .ok word) (h' : m'.wordAt pointer = .ok word) :
    m.bytes[pointer]? = m'.bytes[pointer]? ∧ m.bytes[pointer + 1]? = m'.bytes[pointer + 1]? := by
  obtain ⟨high, low, hhigh, hlow, hjoin⟩ := bytes_of_wordAt h
  obtain ⟨high', low', hhigh', hlow', hjoin'⟩ := bytes_of_wordAt h'
  have hlt : low.toNat < 256 := low.toNat_lt
  have hlt' : low'.toNat < 256 := low'.toNat_lt
  have hsameHigh : high = high' := UInt8.toNat_inj.mp (by omega)
  have hsameLow : low = low' := UInt8.toNat_inj.mp (by omega)
  rw [hhigh, hlow, hhigh', hlow', hsameHigh, hsameLow]
  exact ⟨rfl, rfl⟩

end Chip8.Memory
