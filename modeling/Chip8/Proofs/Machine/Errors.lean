import Chip8.Proofs.Keypad.Waiting
import Chip8.Proofs.Machine.Stepping

/-!
# The errors of a step

`Machine.Raises m e` says when the next step of a machine has to halt on the error `e`: there is one
rule for each error. A wait for a key is interrupted if it is in vain, which is a matter of the
cancellations and presses before and during its visit (`Keypad.WaitsInVain`). A machine whose memory has its full size and whose call stack is not overfull
halts on an error just if one of the rules says so (`Machine.error_iff_raises`). There is one such
error at most, and where there is none the step goes through; in particular a word that is no
instruction is skipped.
-/

namespace Chip8

namespace Exec

/-- An instruction that goes through has found the bytes that it accesses. -/
theorem Effect.block_le {m m' : Machine} {instruction : Instruction} {flow : Flow} {notice : Notice}
    {len : Nat} (h : Effect m instruction flow notice m')
    (hlen : instruction.blockLength? = some len) :
    m.index.toNat + len ≤ m.memory.size := by
  cases h with
  | draw hx hy hblock hdraw | storeDigits hx hblock | storeRegisters hx hblock
  | loadRegisters hx hblock =>
    cases hlen
    exact Memory.checkBlock_eq_ok_iff.mp hblock
  | _ => cases hlen

end Exec

namespace Machine

open Exec

/-- Memory has its full size, the call stack holds no more addresses than there is room for, and the
screen has the cells that it says. -/
structure WellFormed (m : Machine) : Prop where
  memory_size : m.memory.size = Memory.capacity
  depth_le : m.stack.depth ≤ CallStack.capacity
  screen : m.screen.WellFormed

/-- The errors on which the next step halts. -/
inductive Raises (m : Machine) : ExecutionError → Prop
  | outside (hpc : 4096 < m.pc.toNat + 2) : Raises m (.word (.outside m.pc.toNat 4096))
  | empty (hnext : m.Fetches .ret) (hdepth : m.stack.depth = 0) : Raises m (.stack .empty)
  | full {nnn : UInt16} (hnext : m.Fetches (.call nnn)) (hdepth : m.stack.depth = 16) :
      Raises m (.stack .full)
  | block {instruction : Instruction} {len : Nat} (hnext : m.Fetches instruction)
      (hlen : instruction.blockLength? = some len) (hpast : 4096 < m.index.toNat + len) :
      Raises m (.memory (.outOfBounds (max m.index.toNat 4096) 4096))
  | interrupted {x : Nat} (hnext : m.Fetches (.register .awaitKey x))
      (hkey : m.keypad.WaitsInVain) : Raises m .interrupted

variable {m m' : Machine} {e e' : ExecutionError} {notice : Notice}

/-- A step that halts does so by one of the rules. -/
theorem raises_of_stopped (hm : m.WellFormed) (h : Stopped m e m') : Raises m e := by
  have hsize : m.memory.size = 4096 := hm.memory_size
  cases h with
  | fetch hword =>
    obtain ⟨hpast, rfl⟩ := Memory.wordAt_eq_error_iff.mp hword
    rw [hsize] at hpast ⊢
    exact .outside hpast
  | execute hword hdecode hfailure =>
    have hnext : m.Fetches _ := fetches_of_decode? hword hdecode
    cases hfailure with
    | ret hpop =>
      obtain ⟨hdepth, rfl⟩ := CallStack.pop_eq_error_iff.mp hpop
      exact .empty hnext hdepth
    | call hpush =>
      obtain ⟨hdepth, rfl⟩ := CallStack.push_eq_error_iff.mp hpush
      exact .full hnext (Nat.le_antisymm hm.depth_le hdepth)
    | block hlen hblock =>
      obtain ⟨hpast, rfl⟩ := Memory.checkBlock_eq_error_iff.mp hblock
      have hpast' : 4096 < m.index.toNat + _ := hsize ▸ hpast
      have hraises := Raises.block hnext hlen hpast'
      rw [← hsize] at hraises
      exact hraises
    | @awaitKey x cause hkey =>
      cases cause
      exact .interrupted hnext (Keypad.awaitKey_eq_cancelled_iff.mp hkey)

/-- A step that goes through does so against none of the rules. -/
theorem not_raises_of_stepped (hm : m.WellFormed) (h : Stepped m notice m') : ¬ Raises m e := by
  have hsize : m.memory.size = 4096 := hm.memory_size
  intro hraises
  cases hraises with
  | outside hpc =>
    have hword : ∃ word, m.memory.wordAt m.pc.toNat = .ok word := by
      cases h with
      | unknown hword hdecode => exact ⟨_, hword⟩
      | executed hword hdecode heffect => exact ⟨_, hword⟩
    have hinside := (m.memory.wordAt_isOk_iff m.pc.toNat).mp hword
    rw [hsize] at hinside
    exact absurd hinside (Nat.not_le_of_lt hpc)
  | empty hnext hdepth =>
    obtain ⟨word, flow, m₁, heffect, _⟩ := hnext.effect h
    cases heffect with
    | ret hpop =>
      have hempty : m.stack.pop = .error .empty := CallStack.pop_eq_error_iff.mpr ⟨hdepth, rfl⟩
      cases hempty.symm.trans hpop
  | full hnext hdepth =>
    obtain ⟨word, flow, m₁, heffect, _⟩ := hnext.effect h
    cases heffect with
    | call hpush =>
      have hfull : m.stack.push (m.fetched word).pc = .error .full :=
        CallStack.push_eq_error_iff.mpr ⟨Nat.le_of_eq hdepth.symm, rfl⟩
      cases hfull.symm.trans hpush
  | block hnext hlen hpast =>
    obtain ⟨word, flow, m₁, heffect, _⟩ := hnext.effect h
    have hinside : m.index.toNat + _ ≤ m.memory.size := heffect.block_le hlen
    rw [hsize] at hinside
    exact absurd hinside (Nat.not_le_of_lt hpast)
  | interrupted hnext hkey =>
    obtain ⟨word, flow, m₁, heffect, _⟩ := hnext.effect h
    cases heffect with
    | awaitKey hx hkey' =>
      have hvain := Keypad.awaitKey_eq_cancelled_iff.mpr hkey
      cases hvain.symm.trans hkey'

/-- A step that halts against one of the rules halts on the error that the rule names. -/
theorem Raises.eq_of_stopped (hm : m.WellFormed) (h : Raises m e) (hstop : Stopped m e' m') :
    e' = e := by
  have hsize : m.memory.size = 4096 := hm.memory_size
  cases h with
  | outside hpc =>
    cases hstop with
    | fetch hword =>
      rw [(Memory.wordAt_eq_error_iff.mp hword).2, hsize]
    | execute hword hdecode hfailure =>
      have hinside := (m.memory.wordAt_isOk_iff m.pc.toNat).mp ⟨_, hword⟩
      rw [hsize] at hinside
      exact absurd hinside (Nat.not_le_of_lt hpc)
  | empty hnext hdepth =>
    obtain ⟨word, hfailure⟩ := hnext.failure hstop
    cases hfailure with
    | ret hpop => rw [(CallStack.pop_eq_error_iff.mp hpop).2]
    | block hlen hblock => cases hlen
  | full hnext hdepth =>
    obtain ⟨word, hfailure⟩ := hnext.failure hstop
    cases hfailure with
    | call hpush => rw [(CallStack.push_eq_error_iff.mp hpush).2]
    | block hlen hblock => cases hlen
  | block hnext hlen hpast =>
    obtain ⟨word, hfailure⟩ := hnext.failure hstop
    cases hfailure with
    | block hlen' hblock =>
      rw [(Memory.checkBlock_eq_error_iff.mp hblock).2]
      show ExecutionError.memory (.outOfBounds (max m.index.toNat m.memory.size) m.memory.size) = _
      rw [hsize]
    | _ => cases hlen
  | interrupted hnext hkey =>
    obtain ⟨word, hfailure⟩ := hnext.failure hstop
    cases hfailure with
    | block hlen hblock => cases hlen
    | awaitKey hkey' => rfl

theorem error_iff_raises (hm : m.WellFormed) :
    (∃ m', step.run m = .error (.error e) m') ↔ Raises m e := by
  constructor
  · rintro ⟨m', hrun⟩
    exact raises_of_stopped hm (stopped_of_run hrun)
  · intro hraises
    rcases (answers_of_screen hm.screen).ok_or_error with ⟨notice, m', hrun⟩ | ⟨e', m', hrun⟩
    · exact absurd hraises (not_raises_of_stepped hm (stepped_of_run hrun))
    · rw [hraises.eq_of_stopped hm (stopped_of_run hrun)] at hrun
      exact ⟨m', hrun⟩

/-! ### Steps that go through -/

theorem ok_iff_not_raises (hm : m.WellFormed) :
    (∃ notice m', step.run m = .ok notice m') ↔ ∀ e, ¬ Raises m e := by
  constructor
  · rintro ⟨notice, m', hrun⟩ e
    exact not_raises_of_stepped hm (stepped_of_run hrun)
  · intro hnone
    rcases (answers_of_screen hm.screen).ok_or_error with hok | ⟨e, m', hrun⟩
    · exact hok
    · exact absurd (raises_of_stopped hm (stopped_of_run hrun)) (hnone e)

/-- Just the instructions that touch the screen ask for it to be painted again. -/
theorem redraw_iff_of_stepped (h : Stepped m notice m') :
    notice = .redraw ↔ m.Fetches .clear ∨ ∃ x y n, m.Fetches (.draw x y n) := by
  constructor
  · rintro rfl
    generalize hnotice : Notice.redraw = notice at h
    cases h with
    | unknown hword hdecode => cases hnotice
    | executed hword hdecode heffect =>
      have hnext := fetches_of_decode? hword hdecode
      cases heffect with
      | clear => exact .inl hnext
      | draw hx hy hblock hdraw => exact .inr ⟨_, _, _, hnext⟩
      | _ => cases hnotice
  · rintro (hnext | ⟨x, y, n, hnext⟩)
    · obtain ⟨word, flow, m₁, heffect, _⟩ := hnext.effect h
      cases heffect with
      | clear => rfl
    · obtain ⟨word, flow, m₁, heffect, _⟩ := hnext.effect h
      cases heffect with
      | draw hx hy hblock hdraw => rfl

theorem eq_fetched_of_unknown {word : UInt16} (h : Stepped m (.unknown word) m') :
    m.memory.wordAt m.pc.toNat = .ok word ∧ Instruction.decode? word = none ∧
      m' = m.fetched word := by
  generalize hnotice : Notice.unknown word = notice at h
  cases h with
  | unknown hword hdecode =>
    cases hnotice
    exact ⟨hword, hdecode, rfl⟩
  | executed hword hdecode heffect =>
    -- an instruction that is carried out never tells of a word that was skipped
    cases heffect <;> cases hnotice

/-! ### All answers -/

/-- What a step answers. -/
structure AnswersExactly (m : Machine) : Prop where
  error_iff : ∀ e, (∃ m', step.run m = .error (.error e) m') ↔ Raises m e
  ok_iff : (∃ notice m', step.run m = .ok notice m') ↔ ∀ e, ¬ Raises m e
  unknown_iff : ∀ word m', step.run m = .ok (.unknown word) m' ↔
    m.memory.wordAt m.pc.toNat = .ok word ∧ (∀ instruction, ¬ Instruction.Denotes word instruction) ∧
      m' = { m with opcode := word, pc := m.pc + 2 }
  redraw_iff : ∀ notice m', step.run m = .ok notice m' →
    (notice = .redraw ↔ m.Fetches .clear ∨ ∃ x y n, m.Fetches (.draw x y n))

/-- A step halts on an error just where it has to. -/
theorem answers_exactly (hm : m.WellFormed) : AnswersExactly m := by
  refine ⟨fun e => error_iff_raises hm, ok_iff_not_raises hm, ?_, ?_⟩
  · intro word m'
    rw [← Instruction.decode?_eq_none_iff]
    constructor
    · intro hrun
      exact eq_fetched_of_unknown (stepped_of_run hrun)
    · rintro ⟨hword, hdecode, rfl⟩
      exact run_unknown hword hdecode
  · intro notice m' hrun
    exact redraw_iff_of_stepped (stepped_of_run hrun)

/-- A machine that is about to draw a sprite without rows from an address beyond its memory. -/
def astray : Machine :=
  { settings := {}, memory := Memory.blank.write 0x200 [0xD0, 0x00], index := 0x1001, timers := {}
    screen := .blank 1 1, keypad := {}, random := .cycle #[] }

theorem wellFormed_astray : astray.WellFormed where
  memory_size := (Memory.size_write _ _ _).trans Memory.size_blank
  depth_le := by decide
  screen := Screen.wellFormed_blank 1 1

/-- Even a block of no bytes has to lie within memory. -/
theorem answers_exactly_astray : astray.WellFormed ∧
    ∃ m', step.run astray = .error (.error (.memory (.outOfBounds 0x1001 0x1000))) m' := by
  have hhigh : astray.memory.bytes[0x200]? = some 0xD0 := by decide +kernel
  have hlow : astray.memory.bytes[0x201]? = some 0x00 := by decide +kernel
  have hword : astray.memory.wordAt astray.pc.toNat = .ok 0xD000 :=
    Memory.wordAt_of_getElem? hhigh hlow
  have hnext : astray.Fetches (.draw 0 0 0) := fetches_of_decode? hword (by decide)
  have hraises := Raises.block hnext rfl (by decide)
  exact ⟨wellFormed_astray, ((answers_exactly wellFormed_astray).error_iff _).mpr hraises⟩

end Machine

end Chip8
