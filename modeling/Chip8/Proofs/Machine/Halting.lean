import Chip8.Proofs.Machine.Stepping

/-!
# Errors leave the machine intact

An instruction that halts on an error has checked all that can go wrong before it changed anything,
so the machine is as it was. The one exception is the wait for a key: whatever others did to the
keypad while the machine slept stays done.

A step that halts in the fetch has changed nothing at all. One that halts in the instruction has
fetched a word, and keeps it as the last one and the program counter just after it. A program that
is refused has not been loaded in part.
-/

namespace Chip8.Machine

open Exec

variable {m m' : Machine}

/-- The machine after an error is the one before, but for the keypad if a wait was cancelled: there
the others have done what they had in mind for this wait. -/
def LeftIntact (m : Machine) (e : ExecutionError) (m' : Machine) : Prop :=
  m' = m ∨ (e = .interrupted ∧ m' = { m with keypad := m.keypad.awaitKey.1 } ∧
    ∃ cause, m.keypad.awaitKey.2 = .error cause)

/-- What can fail is checked before anything is changed. -/
theorem leftIntact_of_failure {instruction : Instruction} {e : ExecutionError}
    (h : Failure m instruction e m') : LeftIntact m e m' := by
  cases h with
  | ret hpop => exact .inl rfl
  | call hpush => exact .inl rfl
  | block hlen hblock => exact .inl rfl
  | awaitKey hkey => exact .inr ⟨rfl, rfl, _, hkey⟩

theorem failure_of_execute {instruction : Instruction} {e : ExecutionError}
    (h : (execute instruction).run m = .error (.error e) m') : Failure m instruction e m' :=
  (ends_execute m instruction).failed h

/-- A program that does not fit leaves memory as it was. -/
theorem eq_of_load_error {program : List UInt8} {cause : MemoryError}
    (h : (load program).run m = .error cause m') : m' = m := by
  rw [load, EStateM.run_bind, EStateM.run_get] at h
  dsimp only at h
  split at h
  · cases h
  · cases h
    rfl

/-- An instruction that halts on an error leaves the machine intact. A step that does so has either
found no word and changed nothing, or it has fetched a word, and the machine is intact from there
on. A program that is refused changes nothing. -/
theorem errors_leave_intact (m : Machine) :
    (∀ instruction e m', (execute instruction).run m = .error (.error e) m' →
      LeftIntact m e m') ∧
    (∀ e m', step.run m = .error (.error e) m' →
      (∃ cause, m.memory.wordAt m.pc.toNat = .error cause ∧ e = .word cause ∧ m' = m) ∨
      (∃ word, m.memory.wordAt m.pc.toNat = .ok word ∧
        LeftIntact { m with opcode := word, pc := m.pc + 2 } e m')) ∧
    (∀ program cause m', (load program).run m = .error cause m' → m' = m) := by
  refine ⟨?_, ?_, ?_⟩
  · intro instruction e m' hrun
    exact leftIntact_of_failure (failure_of_execute hrun)
  · intro e m' hrun
    cases stopped_of_run hrun with
    | fetch hword => exact .inl ⟨_, hword, rfl, rfl⟩
    | execute hword hdecode hfailure =>
      exact .inr ⟨_, hword, leftIntact_of_failure hfailure⟩
  · intro program cause m' hrun
    exact eq_of_load_error hrun

/-- A machine whose memory is the single word that asks for three digits to be stored. -/
def cramped : Machine :=
  { settings := {}, memory := ⟨#[0xF0, 0x33]⟩, pc := 0, timers := {}, screen := .blank 1 1
    keypad := {}, random := .cycle #[] }

/-- There is no room for three digits. The word has been fetched, and that is all. -/
theorem errors_leave_intact_cramped :
    ∃ m', step.run cramped = .error (.error (.memory (.outOfBounds 2 2))) m' ∧
      m' = { cramped with opcode := 0xF033, pc := 2 } := by
  -- decoding compares words, which plain `rfl` does not evaluate
  have hrun : step.run cramped =
      .error (.error (.memory (.outOfBounds 2 2))) (cramped.fetched 0xF033) := by
    with_unfolding_all rfl
  refine ⟨cramped.fetched 0xF033, hrun, ?_⟩
  rcases (errors_leave_intact cramped).2.1 _ _ hrun with ⟨cause, hword, _⟩ | ⟨word, hword, hintact⟩
  · cases hword
  · cases hword
    rcases hintact with hsame | ⟨hinterrupted, _⟩
    · exact hsame
    · cases hinterrupted

end Chip8.Machine
