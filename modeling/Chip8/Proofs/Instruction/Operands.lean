import Chip8.Instruction.Decode

/-!
# The operands of decoded instructions

The digits of a word express sixteen registers, addresses of twelve bits and sprites of up to
fifteen rows. `Instruction.InRange` says that the operands of an instruction are of this kind, and
`Instruction.inRange_of_decode?` that those of a decoded instruction always are.
-/

namespace Chip8

namespace Word

theorem x_lt (w : UInt16) : x w < 16 := Nat.mod_lt _ (by decide)

theorem y_lt (w : UInt16) : y w < 16 := Nat.mod_lt _ (by decide)

theorem n_lt (w : UInt16) : n w < 16 := Nat.mod_lt _ (by decide)

theorem toNat_nnn (w : UInt16) : (nnn w).toNat = w.toNat % 0x1000 := by
  have hlt : w.toNat % 0x1000 < 0x1000 := Nat.mod_lt _ (by decide)
  exact Nat.mod_eq_of_lt (Nat.lt_of_lt_of_le hlt (by decide))

theorem nnn_lt (w : UInt16) : (nnn w).toNat < 0x1000 := by
  rw [toNat_nnn]
  exact Nat.mod_lt _ (by decide)

/-- A sum of words that is small enough is the sum of the numbers. -/
theorem toNat_add_of_lt {a b : UInt16} (h : a.toNat + b.toNat < 0x10000) :
    (a + b).toNat = a.toNat + b.toNat := by
  rw [UInt16.toNat_add]
  exact Nat.mod_eq_of_lt h

theorem toNat_add_two {a : UInt16} (h : a.toNat + 2 < 0x10000) : (a + 2).toNat = a.toNat + 2 :=
  toNat_add_of_lt h

/-- The number that a word of two bytes stands for. -/
theorem toNat_join (high low : UInt8) :
    (high.toUInt16 * 256 + low.toUInt16).toNat = 256 * high.toNat + low.toNat := by
  have hlt : high.toNat < 256 := high.toNat_lt
  have hlt' : low.toNat < 256 := low.toNat_lt
  have hmul : (high.toUInt16 * 256).toNat = high.toNat * 256 := by
    rw [UInt16.toNat_mul, UInt8.toNat_toUInt16]
    exact Nat.mod_eq_of_lt (by show high.toNat * 256 < 0x10000; omega)
  have hlow : low.toUInt16.toNat = low.toNat := UInt8.toNat_toUInt16 low
  rw [toNat_add_of_lt (by omega), hmul, hlow]
  omega

end Word

namespace Instruction

/-- The registers exist, an address has twelve bits, and a sprite less than sixteen rows. -/
def InRange : Instruction → Prop
  | clear | ret => True
  | jump nnn | call nnn | setIndex nnn | jumpPlus nnn => nnn.toNat < 0x1000
  | skipIfEqual x _ | skipIfNotEqual x _ | set x _ | add x _ | random x _ => x < 16
  | skipIfHeld x | skipIfNotHeld x | register _ x => x < 16
  | skipIfSame x y | skipIfDifferent x y | alu _ x y => x < 16 ∧ y < 16
  | draw x y n => x < 16 ∧ y < 16 ∧ n < 16

/-- What a word stands for has its operands in range. -/
theorem inRange_of_decode? {w : UInt16} {instruction : Instruction}
    (h : decode? w = some instruction) : instruction.InRange := by
  rw [decode?] at h
  split at h
  -- the words that begin with zero
  · split at h
    · cases h
      trivial
    · split at h
      · cases h
        trivial
      · cases h
  · cases h
    exact Word.nnn_lt w
  · cases h
    exact Word.nnn_lt w
  · cases h
    exact Word.x_lt w
  · cases h
    exact Word.x_lt w
  · split at h
    · cases h
      exact ⟨Word.x_lt w, Word.y_lt w⟩
    · cases h
  · cases h
    exact Word.x_lt w
  · cases h
    exact Word.x_lt w
  · obtain ⟨op, _, rfl⟩ := Option.map_eq_some_iff.mp h
    exact ⟨Word.x_lt w, Word.y_lt w⟩
  · split at h
    · cases h
      exact ⟨Word.x_lt w, Word.y_lt w⟩
    · cases h
  · cases h
    exact Word.nnn_lt w
  · cases h
    exact Word.nnn_lt w
  · cases h
    exact Word.x_lt w
  · cases h
    exact ⟨Word.x_lt w, Word.y_lt w, Word.n_lt w⟩
  · split at h
    · cases h
      exact Word.x_lt w
    · split at h
      · cases h
        exact Word.x_lt w
      · cases h
  · obtain ⟨op, _, rfl⟩ := Option.map_eq_some_iff.mp h
    exact Word.x_lt w
  · cases h

end Instruction

end Chip8
