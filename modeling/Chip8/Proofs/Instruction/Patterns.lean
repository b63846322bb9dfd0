import Chip8.Instruction.Decode

/-!
# The patterns of the instruction set

`Instruction.Denotes w instruction` is the table of the instruction set: which digits of a word are
fixed for an instruction, and which of them are its operands. Decoding looks up this table
(`Instruction.decode?_eq_some_iff`), so no word stands for two instructions.

* `AluOp.code` and `RegisterOp.code` are the last digit, or the last two, that name an operation.
-/

namespace Chip8

/-- The last digit of the words for an operation on two registers. -/
def AluOp.code : AluOp → Nat
  | .copy => 0x0
  | .or => 0x1
  | .and => 0x2
  | .xor => 0x3
  | .add => 0x4
  | .sub => 0x5
  | .shiftRight => 0x6
  | .subFrom => 0x7
  | .shiftLeft => 0xE

/-- The last two digits of the words for an operation on one register. -/
def RegisterOp.code : RegisterOp → Nat
  | .getDelay => 0x07
  | .awaitKey => 0x0A
  | .setDelay => 0x15
  | .setSound => 0x18
  | .addToIndex => 0x1E
  | .pointToGlyph => 0x29
  | .storeDigits => 0x33
  | .storeRegisters => 0x55
  | .loadRegisters => 0x65

theorem AluOp.ofCode?_eq_some_iff {code : Nat} {op : AluOp} :
    ofCode? code = some op ↔ code = op.code := by
  constructor
  · intro h
    rw [ofCode?.eq_def] at h
    split at h <;> cases h <;> rfl
  · rintro rfl
    cases op <;> rfl

theorem RegisterOp.ofCode?_eq_some_iff {code : Nat} {op : RegisterOp} :
    ofCode? code = some op ↔ code = op.code := by
  constructor
  · intro h
    rw [ofCode?.eq_def] at h
    split at h <;> cases h <;> rfl
  · rintro rfl
    cases op <;> rfl

namespace Instruction

/-- The words for each instruction. -/
inductive Denotes (w : UInt16) : Instruction → Prop
  | clear (h : w = 0x00E0) : Denotes w .clear
  | ret (h : w = 0x00EE) : Denotes w .ret
  | jump (h : Word.kind w = 0x1) : Denotes w (.jump (Word.nnn w))
  | call (h : Word.kind w = 0x2) : Denotes w (.call (Word.nnn w))
  | skipIfEqual (h : Word.kind w = 0x3) : Denotes w (.skipIfEqual (Word.x w) (Word.nn w))
  | skipIfNotEqual (h : Word.kind w = 0x4) : Denotes w (.skipIfNotEqual (Word.x w) (Word.nn w))
  | skipIfSame (h : Word.kind w = 0x5) (hn : Word.n w = 0) :
      Denotes w (.skipIfSame (Word.x w) (Word.y w))
  | set (h : Word.kind w = 0x6) : Denotes w (.set (Word.x w) (Word.nn w))
  | add (h : Word.kind w = 0x7) : Denotes w (.add (Word.x w) (Word.nn w))
  | alu {op : AluOp} (h : Word.kind w = 0x8) (hn : Word.n w = op.code) :
      Denotes w (.alu op (Word.x w) (Word.y w))
  | skipIfDifferent (h : Word.kind w = 0x9) (hn : Word.n w = 0) :
      Denotes w (.skipIfDifferent (Word.x w) (Word.y w))
  | setIndex (h : Word.kind w = 0xA) : Denotes w (.setIndex (Word.nnn w))
  | jumpPlus (h : Word.kind w = 0xB) : Denotes w (.jumpPlus (Word.nnn w))
  | random (h : Word.kind w = 0xC) : Denotes w (.random (Word.x w) (Word.nn w))
  | draw (h : Word.kind w = 0xD) : Denotes w (.draw (Word.x w) (Word.y w) (Word.n w))
  | skipIfHeld (h : Word.kind w = 0xE) (hnn : Word.nn w = 0x9E) : Denotes w (.skipIfHeld (Word.x w))
  | skipIfNotHeld (h : Word.kind w = 0xE) (hnn : Word.nn w = 0xA1) :
      Denotes w (.skipIfNotHeld (Word.x w))
  | register {op : RegisterOp} (h : Word.kind w = 0xF) (hnn : (Word.nn w).toNat = op.code) :
      Denotes w (.register op (Word.x w))

variable {w : UInt16} {instruction : Instruction}

theorem denotes_of_decode? (h : decode? w = some instruction) : Denotes w instruction := by
  rw [decode?] at h
  split at h
  case h_1 =>
    split at h
    · next hw =>
      cases h
      exact .clear hw
    · split at h
      · next hw =>
        cases h
        exact .ret hw
      · cases h
  case h_6 hkind =>
    split at h
    · next hn =>
      cases h
      exact .skipIfSame hkind hn
    · cases h
  case h_9 hkind =>
    obtain ⟨op, hop, rfl⟩ := Option.map_eq_some_iff.mp h
    exact .alu hkind (AluOp.ofCode?_eq_some_iff.mp hop)
  case h_10 hkind =>
    split at h
    · next hn =>
      cases h
      exact .skipIfDifferent hkind hn
    · cases h
  case h_15 hkind =>
    split at h
    · next hnn =>
      cases h
      exact .skipIfHeld hkind hnn
    · split at h
      · next hnn =>
        cases h
        exact .skipIfNotHeld hkind hnn
      · cases h
  case h_16 hkind =>
    obtain ⟨op, hop, rfl⟩ := Option.map_eq_some_iff.mp h
    exact .register hkind (RegisterOp.ofCode?_eq_some_iff.mp hop)
  case h_17 => cases h
  all_goals
    next hkind =>
    cases h
    constructor
    exact hkind

theorem Denotes.decode? (h : Denotes w instruction) : decode? w = some instruction := by
  rw [Instruction.decode?]
  cases h with
  | clear h =>
    rw [h]
    rfl
  | ret h =>
    rw [h]
    rfl
  | skipIfSame h hn | skipIfDifferent h hn =>
    rw [h]
    exact if_pos hn
  | alu h hn =>
    rw [h]
    exact Option.map_eq_some_iff.mpr ⟨_, AluOp.ofCode?_eq_some_iff.mpr hn, rfl⟩
  | skipIfHeld h hnn =>
    rw [h]
    exact if_pos hnn
  | skipIfNotHeld h hnn =>
    rw [h, hnn]
    rfl
  | register h hnn =>
    rw [h]
    exact Option.map_eq_some_iff.mpr ⟨_, RegisterOp.ofCode?_eq_some_iff.mpr hnn, rfl⟩
  | _ h => simp only [h]

/-- Decoding finds the instruction of the table, and only that. -/
theorem decode?_eq_some_iff : decode? w = some instruction ↔ Denotes w instruction :=
  ⟨denotes_of_decode?, Denotes.decode?⟩

theorem decode?_eq_none_iff : decode? w = none ↔ ∀ instruction, ¬ Denotes w instruction := by
  rw [Option.eq_none_iff_forall_ne_some]
  simp only [ne_eq, decode?_eq_some_iff]

theorem Denotes.unique {instruction' : Instruction} (h : Denotes w instruction)
    (h' : Denotes w instruction') : instruction = instruction' :=
  Option.some.inj (h.decode?.symm.trans h'.decode?)

end Instruction

end Chip8
