import Chip8.Machine.Step
import Chip8.Proofs.Instruction.Patterns
import Chip8.Proofs.Machine.Effect

/-!
# What a step does

A step fetches a word and, if the word is an instruction, carries it out. `Machine.Stepped` and
`Machine.Stopped` say what that comes to if the step goes through and if it halts on an error, and
`Machine.ends_step` says that on a well-formed screen there is nothing else: a step never faults.

A step keeps the screen well-formed, so this holds of every later step as well.
-/

namespace Chip8

namespace Machine

/-- The machine after it has fetched a word. -/
def fetched (m : Machine) (word : UInt16) : Machine := { m with opcode := word, pc := m.pc + 2 }

/-- The machine after execution has gone on as an instruction asks. -/
def continued (m : Machine) (flow : Flow) : Machine := { m with pc := flow.apply m.pc }

/-- A step that goes through: the word is skipped or carried out. -/
inductive Stepped (m : Machine) : Notice → Machine → Prop
  | unknown {word : UInt16} (hword : m.memory.wordAt m.pc.toNat = .ok word)
      (hdecode : Instruction.decode? word = none) :
      Stepped m (.unknown word) (m.fetched word)
  | executed {word : UInt16} {instruction : Instruction} {flow : Flow} {notice : Notice}
      {m' : Machine} (hword : m.memory.wordAt m.pc.toNat = .ok word)
      (hdecode : Instruction.decode? word = some instruction)
      (heffect : Exec.Effect (m.fetched word) instruction flow notice m') :
      Stepped m notice (m'.continued flow)

/-- A step that halts on an error: there is no word, or its instruction fails. -/
inductive Stopped (m : Machine) : ExecutionError → Machine → Prop
  | fetch {cause : WordError} (hword : m.memory.wordAt m.pc.toNat = .error cause) :
      Stopped m (.word cause) m
  | execute {word : UInt16} {instruction : Instruction} {e : ExecutionError} {m' : Machine}
      (hword : m.memory.wordAt m.pc.toNat = .ok word)
      (hdecode : Instruction.decode? word = some instruction)
      (hfailure : Exec.Failure (m.fetched word) instruction e m') :
      Stopped m e m'

open Exec

theorem ends_execute (m : Machine) (instruction : Instruction) :
    Ends (execute instruction) m
      { returned := fun notice m' => ∃ flow m₁, Effect m instruction flow notice m₁ ∧
          m' = m₁.continued flow
        failed := Failure m instruction
        faulted := MayFault m instruction } := by
  rw [execute]
  refine ends_bind ((ends_perform m instruction).mono (fun result m₁ heffect => ?_)
    (fun _ _ h => h) id)
  obtain ⟨flow, notice⟩ := result
  exact ends_bind (ends_modify (ends_pure ⟨flow, m₁, heffect, rfl⟩))

theorem ends_fetch {m : Machine} {q : Ending UInt16}
    (hok : ∀ word, m.memory.wordAt m.pc.toNat = .ok word → q.returned word (m.fetched word))
    (herror : ∀ cause, m.memory.wordAt m.pc.toNat = .error cause → q.failed (.word cause) m) :
    Ends fetch m q := by
  rw [fetch]
  refine ends_bind (ends_get (ends_bind (ends_orError (fun word hword => ?_) herror)))
  exact ends_bind (ends_modify (ends_pure (hok word hword)))

/-- Operands that come from a word are in range, which leaves the screen as the only reason to
fault. -/
theorem ends_step (m : Machine) :
    Ends step m
      { returned := Stepped m, failed := Stopped m, faulted := ¬ m.screen.WellFormed } := by
  rw [step]
  refine ends_bind (ends_fetch (fun word hword => ?_) (fun _ hword => .fetch hword))
  dsimp only
  rw [Instruction.decode]
  cases hdecode : Instruction.decode? word with
  | none => exact ends_pure (.unknown hword hdecode)
  | some instruction =>
    refine (ends_execute (m.fetched word) instruction).mono ?_ ?_ ?_
    · intro notice m' hperformed
      obtain ⟨flow, m₁, heffect, rfl⟩ := hperformed
      exact .executed hword hdecode heffect
    · intro e m' hfailure
      exact .execute hword hdecode hfailure
    · intro hfault hscreen
      exact hfault ⟨Instruction.inRange_of_decode? hdecode, hscreen⟩

theorem stepped_of_run {m m' : Machine} {notice : Notice} (h : step.run m = .ok notice m') :
    Stepped m notice m' := (ends_step m).returned h

theorem stopped_of_run {m m' : Machine} {e : ExecutionError}
    (h : step.run m = .error (.error e) m') : Stopped m e m' := (ends_step m).failed h

/-- On a well-formed screen no step faults. -/
theorem run_step_ne_fault {m : Machine} (hscreen : m.screen.WellFormed) (f : Fault)
    (m' : Machine) : step.run m ≠ .error (.fault f) m' :=
  fun h => (ends_step m).faulted h hscreen

/-- The next step does not fault. -/
def Answers (m : Machine) : Prop := ∀ f m', step.run m ≠ .error (.fault f) m'

theorem answers_of_screen {m : Machine} (hscreen : m.screen.WellFormed) : m.Answers :=
  run_step_ne_fault hscreen

theorem Answers.ok_or_error {m : Machine} (h : m.Answers) :
    (∃ notice m', step.run m = .ok notice m') ∨ ∃ e m', step.run m = .error (.error e) m' := by
  cases hrun : step.run m with
  | ok notice m' => exact .inl ⟨notice, m', rfl⟩
  | error halt m' =>
    cases halt with
    | error e => exact .inr ⟨e, m', rfl⟩
    | fault f => exact absurd hrun (h f m')

/-! ### The result of a step -/

theorem run_fetch {m : Machine} {word : UInt16} (hword : m.memory.wordAt m.pc.toNat = .ok word) :
    fetch.run m = .ok word (m.fetched word) := by
  rw [fetch, EStateM.run_bind, EStateM.run_get]
  dsimp only
  rw [hword]
  rfl

/-- A fetch that fails changes nothing. -/
theorem run_fetch_unreadable {m : Machine} {cause : WordError}
    (hword : m.memory.wordAt m.pc.toNat = .error cause) :
    fetch.run m = .error (.error (.word cause)) m := by
  rw [fetch, EStateM.run_bind, EStateM.run_get]
  dsimp only
  rw [hword]
  rfl

theorem run_unreadable {m : Machine} {cause : WordError}
    (hword : m.memory.wordAt m.pc.toNat = .error cause) :
    step.run m = .error (.error (.word cause)) m := by
  rw [step, EStateM.run_bind, run_fetch_unreadable hword]

theorem run_unknown {m : Machine} {word : UInt16} (hword : m.memory.wordAt m.pc.toNat = .ok word)
    (hdecode : Instruction.decode? word = none) :
    step.run m = .ok (.unknown word) (m.fetched word) := by
  rw [step, EStateM.run_bind, run_fetch hword]
  dsimp only
  rw [Instruction.decode, hdecode]
  rfl

theorem run_instruction {m : Machine} {word : UInt16} {instruction : Instruction}
    (hword : m.memory.wordAt m.pc.toNat = .ok word)
    (hdecode : Instruction.decode? word = some instruction) :
    step.run m = (execute instruction).run (m.fetched word) := by
  rw [step, EStateM.run_bind, run_fetch hword]
  dsimp only
  rw [Instruction.decode, hdecode]

end Machine

namespace Exec

/-! ### The size of the screen -/

/-- Instructions clear the screen and draw on it, and never replace it by one of another size. -/
theorem Effect.sameSize {m m' : Machine} {instruction : Instruction} {flow : Flow}
    {notice : Notice} (h : Effect m instruction flow notice m') (hrange : instruction.InRange)
    (hscreen : m.screen.WellFormed) : Screen.SameSize m.screen m'.screen := by
  cases h with
  | clear => exact Screen.sameSize_clear hscreen
  | @draw x y n screen erased hx hy hblock hdraw =>
    have hn : n ≤ 0x1000 := by
      have := hrange.2.2
      omega
    rw [drawSprite_block hscreen m.registers[x] m.registers[y] m.memory m.index.toNat hn] at hdraw
    have hdrawn : _ = screen := congrArg Prod.fst (Except.ok.inj hdraw)
    show Screen.SameSize m.screen screen
    rw [← hdrawn]
    exact Screen.sameSize_invertAll (m.screen, false) _
  | _ => exact Screen.SameSize.refl _

end Exec

namespace Machine

variable {m m' : Machine}

theorem Stepped.screen_wellFormed {notice : Notice} (h : Stepped m notice m')
    (hscreen : m.screen.WellFormed) : m'.screen.WellFormed := by
  cases h with
  | unknown hword hdecode => exact hscreen
  | executed hword hdecode heffect =>
    have hrange := Instruction.inRange_of_decode? hdecode
    exact Screen.WellFormed.of_sameSize hscreen (heffect.sameSize hrange hscreen)

theorem Stopped.screen_wellFormed {e : ExecutionError} (h : Stopped m e m')
    (hscreen : m.screen.WellFormed) : m'.screen.WellFormed := by
  cases h with
  | fetch hword => exact hscreen
  | execute hword hdecode hfailure =>
    rw [hfailure.frame]
    exact hscreen

/-! ### The instruction that a step carries out -/

/-- The word at the program counter stands for the instruction. -/
def Fetches (m : Machine) (instruction : Instruction) : Prop :=
  ∃ word, m.memory.wordAt m.pc.toNat = .ok word ∧ Instruction.Denotes word instruction

variable {instruction instruction' : Instruction}

theorem fetches_of_decode? {word : UInt16} (hword : m.memory.wordAt m.pc.toNat = .ok word)
    (hdecode : Instruction.decode? word = some instruction) : m.Fetches instruction :=
  ⟨word, hword, Instruction.denotes_of_decode? hdecode⟩

/-- The word and its instruction are the only ones that the step can find. -/
theorem Fetches.decode?_eq (h : m.Fetches instruction) {word : UInt16}
    (hword : m.memory.wordAt m.pc.toNat = .ok word) :
    Instruction.decode? word = some instruction := by
  obtain ⟨word', hword', hdenotes⟩ := h
  cases hword'.symm.trans hword
  exact hdenotes.decode?

theorem Fetches.unique (h : m.Fetches instruction) (h' : m.Fetches instruction') :
    instruction = instruction' := by
  obtain ⟨word, hword, hdenotes⟩ := h
  exact Option.some.inj (hdenotes.decode?.symm.trans (h'.decode?_eq hword))

theorem Fetches.effect (h : m.Fetches instruction) {notice : Notice}
    (hstep : Stepped m notice m') :
    ∃ word flow m₁, Exec.Effect (m.fetched word) instruction flow notice m₁ ∧
      m' = m₁.continued flow := by
  cases hstep with
  | unknown hword hdecode =>
    rw [h.decode?_eq hword] at hdecode
    cases hdecode
  | executed hword hdecode heffect =>
    rw [h.decode?_eq hword] at hdecode
    cases hdecode
    exact ⟨_, _, _, heffect, rfl⟩

theorem Fetches.failure (h : m.Fetches instruction) {e : ExecutionError} (hstop : Stopped m e m') :
    ∃ word, Exec.Failure (m.fetched word) instruction e m' := by
  cases hstop with
  | fetch hword =>
    obtain ⟨word, hword', _⟩ := h
    cases hword'.symm.trans hword
  | execute hword hdecode hfailure =>
    rw [h.decode?_eq hword] at hdecode
    cases hdecode
    exact ⟨_, hfailure⟩

end Machine

end Chip8
