import Chip8.Proofs.Memory.Blocks

/-!
# Words as slices

A word can be read as a slice of two bytes, the ends of which are pointers of 64 bits. The sum that makes
the upper end stays at the highest pointer where it would not fit, so such a slice is empty or has one
byte, and holds no word.

* `Memory.readWord_eq`: as long as the size of a memory is itself a pointer, such a slice
  (`Memory.readWord`) is the word at that address (`Memory.wordAt`). No sum wraps around to the
  beginning.
* `Memory.wordAt_eq_ok_iff` says which word that is.
-/

namespace Chip8

namespace Memory

variable {m : Memory} {start stop pointer : UInt64} {bytes : List UInt8}

/-- The sum is clamped. -/
theorem toNat_saturatingAdd (a b : UInt64) :
    (saturatingAdd a b).toNat = min (a.toNat + b.toNat) 0xFFFFFFFFFFFFFFFF := by
  rw [saturatingAdd]
  split
  · next hfits =>
    rw [UInt64.toNat_add, Nat.mod_eq_of_lt hfits]
    omega
  · next hlarge =>
    show 0xFFFFFFFFFFFFFFFF = _
    omega

/-- A slice that exists has as many bytes as there are between its ends. -/
theorem length_of_slice? (h : m.slice? start stop = some bytes) :
    bytes.length = stop.toNat - start.toNat ∧ start.toNat ≤ stop.toNat ∧ stop.toNat ≤ m.size := by
  rw [slice?] at h
  split at h
  · next hinside =>
    have hle : start.toNat ≤ stop.toNat := UInt64.le_iff_toNat_le.mp hinside.1
    cases h
    refine ⟨length_block ?_, hle, hinside.2⟩
    rw [Nat.add_sub_cancel' hle]
    exact hinside.2
  · cases h

/-- Two bytes that are inside are a slice. -/
theorem slice?_of_wordAt {high low : UInt8} (hhigh : m.bytes[pointer.toNat]? = some high)
    (hlow : m.bytes[pointer.toNat + 1]? = some low) (hstop : stop.toNat = pointer.toNat + 2) :
    m.slice? pointer stop = some [high, low] := by
  have hinside : pointer.toNat + 2 ≤ m.size := (Array.getElem?_eq_some_iff.mp hlow).1
  have hcond : pointer ≤ stop ∧ stop.toNat ≤ m.size :=
    ⟨UInt64.le_iff_toNat_le.mpr (by omega), by omega⟩
  have hcount : stop.toNat - pointer.toNat = 2 := by omega
  rw [slice?, if_pos hcond, hcount]
  refine congrArg some (List.ext_getElem? fun k => ?_)
  by_cases hk : k < 2
  · rw [getElem?_block hk hinside]
    match k, hk with
    | 0, _ => exact hhigh
    | 1, _ => exact hlow
  · rw [List.getElem?_eq_none (by rw [length_block hinside]; omega),
      List.getElem?_eq_none (by rw [List.length_cons, List.length_singleton]; omega)]

/-- A word of bytes that are inside is its slice, and where there is no word there is no slice of two
bytes either. -/
theorem readWord_eq (hsize : m.size < 0x10000000000000000) (pointer : UInt64) :
    m.readWord pointer = m.wordAt pointer.toNat := by
  have hend := toNat_saturatingAdd pointer 2
  have htwo : (2 : UInt64).toNat = 2 := rfl
  rw [htwo] at hend
  rw [readWord]
  cases hword : m.wordAt pointer.toNat with
  | ok word =>
    have hinside : pointer.toNat + 2 ≤ m.size := (m.wordAt_isOk_iff pointer.toNat).mp ⟨word, hword⟩
    have hfirst : pointer.toNat < m.size := by omega
    have hsecond : pointer.toNat + 1 < m.size := by omega
    obtain ⟨high, hhigh⟩ := exists_byte hfirst
    obtain ⟨low, hlow⟩ := exists_byte hsecond
    rw [slice?_of_wordAt hhigh hlow (by omega), ← hword, wordAt_of_getElem? hhigh hlow]
  | error cause =>
    obtain ⟨hpast, rfl⟩ := wordAt_eq_error_iff.mp hword
    have hpast : m.size < pointer.toNat + 2 := hpast
    split
    · next high low hslice =>
      -- a slice of two bytes ends at the true sum, which is beyond the last byte
      obtain ⟨hlen, hle, hinside⟩ := length_of_slice? hslice
      rw [List.length_cons, List.length_singleton] at hlen
      omega
    · rfl

/-- The word at an address is made of the bytes there, the more significant one first. -/
theorem wordAt_eq_ok_iff {address : Nat} {word : UInt16} :
    m.wordAt address = .ok word ↔
      ∃ high low, m.bytes[address]? = some high ∧ m.bytes[address + 1]? = some low ∧
        word.toNat = 256 * high.toNat + low.toNat := by
  refine ⟨bytes_of_wordAt, ?_⟩
  rintro ⟨high, low, hhigh, hlow, hjoin⟩
  rw [wordAt_of_getElem? hhigh hlow]
  exact congrArg Except.ok (UInt16.toNat_inj.mp ((Word.toNat_join high low).trans hjoin.symm))

end Memory

end Chip8
