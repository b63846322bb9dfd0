import Chip8.Proofs.Machine.Stepping

/-!
# No program can make the machine fault

A machine is *sound* if its memory has its full size, its call stack holds at most sixteen addresses
that lie just after a word, its program counter is at most `Machine.pcLimit`, and its screen is
well-formed and can be stored.

* New machines are sound, and fonts, programs and steps keep them so (`Machine.Reachable.sound`);
  a step may also halt, and what surrounds the machine may change in any way.
* A sound machine makes steps without a fault, and the sums and products that are not checked where
  they are computed are far from the ends of their words (`Machine.ExactSums`).

The program counter leaves memory by a jump to a sum, and then no word can be fetched. So each step
that goes through starts inside memory, and the address just after its word is the only one that
a call can push.
-/

namespace Chip8

/-! ### Addresses on the call stack -/

/-- The addresses fit on the stack, and each lies just after a word of memory. -/
structure CallStack.Sound (s : CallStack) : Prop where
  depth_le : s.depth ≤ CallStack.capacity
  mem_bounds : ∀ address ∈ s.addresses, 2 ≤ address.toNat ∧ address.toNat ≤ Memory.capacity

namespace CallStack

variable {s s' : CallStack} {address : UInt16}

theorem Sound.of_push (h : s.Sound)
    (haddress : 2 ≤ address.toNat ∧ address.toNat ≤ Memory.capacity)
    (hpush : s.push address = .ok s') : s'.Sound := by
  rw [push] at hpush
  split at hpush
  · next hroom =>
    cases hpush
    refine ⟨hroom, ?_⟩
    intro a ha
    rcases List.mem_cons.mp ha with rfl | hold
    · exact haddress
    · exact h.mem_bounds a hold
  · cases hpush

theorem Sound.of_pop (h : s.Sound) (hpop : s.pop = .ok (address, s')) :
    s'.Sound ∧ 2 ≤ address.toNat ∧ address.toNat ≤ Memory.capacity := by
  obtain ⟨addresses⟩ := s
  cases addresses with
  | nil => cases hpop
  | cons top rest =>
    cases hpop
    have hdepth : rest.length + 1 ≤ capacity := h.depth_le
    have hrest : Sound ⟨rest⟩ :=
      ⟨Nat.le_of_succ_le hdepth, fun a ha => h.mem_bounds a (List.mem_cons_of_mem _ ha)⟩
    exact ⟨hrest, h.mem_bounds address List.mem_cons_self⟩

end CallStack

namespace Machine

/-- The highest program counter: a jump to the highest address that an instruction can name, moved
on by the highest byte. -/
def pcLimit : Nat := Memory.highestOperand + 0xFF

/-- What holds of a machine whatever its program does. -/
structure Sound (m : Machine) : Prop where
  memory_size : m.memory.size = Memory.capacity
  stack : m.stack.Sound
  pc_le : m.pc.toNat ≤ pcLimit
  screen : m.screen.WellFormed
  storage : m.screen.rows * m.screen.cols ≤ storageLimit

/-- The sums that make program counters do not wrap, and neither do the numbers of cells. -/
structure ExactSums (m : Machine) : Prop where
  fetch : (m.pc + 2).toNat = m.pc.toNat + 2
  skip : (m.pc + 2 + 2).toNat = m.pc.toNat + 4
  jumpPlus : ∀ {word nnn : UInt16}, Instruction.decode? word = some (.jumpPlus nnn) →
    (nnn + m.registers[0].toUInt16).toNat = nnn.toNat + m.registers[0].toNat
  cell : ∀ {x y : Nat}, x < m.screen.cols → y < m.screen.rows →
    m.screen.cellNumber x y < m.screen.cells.size ∧ m.screen.cells.size ≤ storageLimit

/-- The machines that there can be. Between two steps, and also after a step that halted, the
keypad, the timers and the source of random bytes may change in any way; the keypad includes what
others will do during the next waits. -/
inductive Reachable : Machine → Prop
  | create {settings : Settings} {keypad : Keypad} {random : RandomSource} {m : Machine}
      (hcreate : create settings keypad random = .ok m) : Reachable m
  | loadFont {m : Machine} (font : Font) (h : Reachable m) : Reachable (m.loadFont font)
  | loadProgram {m m' : Machine} {program : List UInt8} (h : Reachable m)
      (hload : m.loadProgram program = .ok m') : Reachable m'
  | step {m m' : Machine} {notice : Notice} (h : Reachable m)
      (hrun : step.run m = .ok notice m') : Reachable m'
  | halt {m m' : Machine} {halt : Halt} (h : Reachable m)
      (hrun : Machine.step.run m = .error halt m') : Reachable m'
  | surroundings {m : Machine} (keypad : Keypad) (timers : Timers) (random : RandomSource)
      (h : Reachable m) : Reachable { m with keypad, timers, random }

end Machine

/-! ### What an instruction keeps -/

namespace Exec

variable {m m' : Machine} {instruction : Instruction} {flow : Flow} {notice : Notice}

/-- Instructions say where execution goes on, and leave it to others to go there. -/
theorem Effect.pc_eq (h : Effect m instruction flow notice m') : m'.pc = m.pc := by
  cases h <;> rfl

theorem Effect.memory_size (h : Effect m instruction flow notice m') :
    m'.memory.size = m.memory.size := by
  cases h with
  | storeDigits hx hblock => exact Memory.size_write _ _ _
  | storeRegisters hx hblock => exact Memory.size_write _ _ _
  | _ => rfl

/-- A call pushes the program counter, and nothing else is ever pushed. -/
theorem Effect.stack_sound (h : Effect m instruction flow notice m') (hstack : m.stack.Sound)
    (hpc : 2 ≤ m.pc.toNat ∧ m.pc.toNat ≤ Memory.capacity) : m'.stack.Sound := by
  cases h with
  | ret hpop => exact (hstack.of_pop hpop).1
  | call hpush => exact hstack.of_push hpc hpush
  | _ => exact hstack

/-- A skip condition never asks for a jump. -/
theorem skipIf_ne_jump (condition : Bool) (target : UInt16) :
    Flow.skipIf condition ≠ .jump target := by
  cases condition <;> exact Flow.noConfusion

theorem jumpPlus_toNat {nnn : UInt16} (hnnn : nnn.toNat < 0x1000) (value : UInt8) :
    (nnn + value.toUInt16).toNat = nnn.toNat + value.toNat := by
  have hvalue : value.toUInt16.toNat = value.toNat := UInt8.toNat_toUInt16 value
  have hlt : value.toNat < 0x100 := value.toNat_lt
  rw [Word.toNat_add_of_lt (by omega), hvalue]

/-- Jumps go to an address that an instruction names, or that was pushed, or to a sum. -/
theorem Effect.target_le {target : UInt16}
    (h : Effect m instruction (.jump target) notice m') (hrange : instruction.InRange)
    (hstack : m.stack.Sound) : target.toNat ≤ Machine.pcLimit := by
  have hlimit : Machine.pcLimit = 0x10FE := rfl
  -- skips name no target, but only their condition tells them from jumps
  generalize hflow : Flow.jump target = flow at h
  cases h with
  | ret hpop =>
    cases hflow
    have hbound := (hstack.of_pop hpop).2.2
    have hcapacity : Memory.capacity = 0x1000 := rfl
    omega
  | jump =>
    cases hflow
    have hnnn : target.toNat < 0x1000 := hrange
    omega
  | call hpush =>
    cases hflow
    have hnnn : target.toNat < 0x1000 := hrange
    omega
  | @jumpPlus nnn =>
    cases hflow
    have hnnn : nnn.toNat < 0x1000 := hrange
    have hvalue : m.registers[0].toNat < 0x100 := m.registers[0].toNat_lt
    rw [jumpPlus_toNat hnnn]
    omega
  | skipIfEqual | skipIfNotEqual | skipIfSame | skipIfDifferent | skipIfHeld | skipIfNotHeld =>
    exact absurd hflow.symm (skipIf_ne_jump _ _)
  | _ => cases hflow

end Exec

namespace Machine

open Exec

variable {m m' : Machine}

/-! ### Sound machines -/

/-- The program counter just after a word that was read does not wrap. -/
theorem toNat_pc_add_two {word : UInt16} (hsize : m.memory.size = Memory.capacity)
    (hword : m.memory.wordAt m.pc.toNat = .ok word) :
    (m.pc + 2).toNat = m.pc.toNat + 2 ∧ m.pc.toNat + 2 ≤ Memory.capacity := by
  have hinside : m.pc.toNat + Memory.wordBytes ≤ m.memory.size :=
    (m.memory.wordAt_isOk_iff m.pc.toNat).mp ⟨word, hword⟩
  rw [hsize] at hinside
  have hcapacity : Memory.capacity = 0x1000 := rfl
  have hbytes : Memory.wordBytes = 2 := rfl
  exact ⟨Word.toNat_add_two (by omega), by omega⟩

theorem Sound.pc_fetched (h : m.Sound) {word : UInt16}
    (hword : m.memory.wordAt m.pc.toNat = .ok word) :
    2 ≤ (m.fetched word).pc.toNat ∧ (m.fetched word).pc.toNat ≤ Memory.capacity := by
  obtain ⟨hsum, hinside⟩ := toNat_pc_add_two h.memory_size hword
  show 2 ≤ (m.pc + 2).toNat ∧ (m.pc + 2).toNat ≤ Memory.capacity
  omega

theorem Sound.fetched (h : m.Sound) {word : UInt16}
    (hword : m.memory.wordAt m.pc.toNat = .ok word) : (m.fetched word).Sound where
  memory_size := h.memory_size
  stack := h.stack
  pc_le := Nat.le_trans (h.pc_fetched hword).2 (by decide)
  screen := h.screen
  storage := h.storage

/-- Execution goes on at a program counter within the limit. -/
theorem Sound.pc_continued (h : m.Sound) (hpc : m.pc.toNat ≤ Memory.capacity)
    {instruction : Instruction} {flow : Flow} {notice : Notice}
    (hrange : instruction.InRange) (heffect : Effect m instruction flow notice m') :
    (flow.apply m'.pc).toNat ≤ pcLimit := by
  have hlimit : pcLimit = 0x10FE := rfl
  have hcapacity : Memory.capacity = 0x1000 := rfl
  rw [heffect.pc_eq]
  cases flow with
  | next => exact h.pc_le
  | skip =>
    have hsum : (m.pc + 2).toNat = m.pc.toNat + 2 := Word.toNat_add_two (by omega)
    show (m.pc + 2).toNat ≤ pcLimit
    omega
  | jump target => exact heffect.target_le hrange h.stack

/-- An instruction keeps a machine sound whose program counter lies just after a word. -/
theorem Sound.of_effect (h : m.Sound) (hpc : 2 ≤ m.pc.toNat ∧ m.pc.toNat ≤ Memory.capacity)
    {instruction : Instruction} {flow : Flow} {notice : Notice}
    (hrange : instruction.InRange) (heffect : Effect m instruction flow notice m') :
    (m'.continued flow).Sound := by
  have hsame : Screen.SameSize m.screen m'.screen := heffect.sameSize hrange h.screen
  constructor
  · show m'.memory.size = Memory.capacity
    rw [heffect.memory_size]
    exact h.memory_size
  · exact heffect.stack_sound h.stack hpc
  · exact h.pc_continued hpc.2 hrange heffect
  · exact h.screen.of_sameSize hsame
  · show m'.screen.rows * m'.screen.cols ≤ storageLimit
    rw [hsame.rows_eq, hsame.cols_eq]
    exact h.storage

theorem Sound.of_stepped (h : m.Sound) {notice : Notice} (hstep : Stepped m notice m') :
    m'.Sound := by
  cases hstep with
  | unknown hword hdecode => exact h.fetched hword
  | executed hword hdecode heffect =>
    exact (h.fetched hword).of_effect (h.pc_fetched hword)
      (Instruction.inRange_of_decode? hdecode) heffect

theorem Sound.surroundings (h : m.Sound) (keypad : Keypad) (timers : Timers)
    (random : RandomSource) : Sound { m with keypad, timers, random } :=
  ⟨h.memory_size, h.stack, h.pc_le, h.screen, h.storage⟩

/-- A halt leaves a machine sound: no more than the fetch has taken place. -/
theorem Sound.of_stopped (h : m.Sound) {e : ExecutionError} (hstop : Stopped m e m') :
    m'.Sound := by
  cases hstop with
  | fetch hword => exact h
  | @execute word _ _ _ hword hdecode hfailure =>
    rw [hfailure.frame]
    exact (h.fetched hword).surroundings m'.keypad m.timers m.random

theorem Sound.of_size_eq (h : m.Sound) {memory : Memory} (hsize : memory.size = m.memory.size) :
    Sound { m with memory } :=
  ⟨hsize.trans h.memory_size, h.stack, h.pc_le, h.screen, h.storage⟩

/-- What a new machine is made of, if its screen can be made. -/
theorem eq_of_create {settings : Settings} {keypad : Keypad} {random : RandomSource}
    (hcreate : create settings keypad random = .ok m) :
    Screen.create settings.rows settings.cols = .ok m.screen ∧
      m = { settings, memory := Memory.blank.loadFont Font.builtIn, timers := Timers.running
            screen := m.screen, keypad, random } := by
  rw [create] at hcreate
  cases hscreen : Screen.create settings.rows settings.cols with
  | error f =>
    rw [hscreen] at hcreate
    cases hcreate
  | ok screen =>
    rw [hscreen] at hcreate
    cases hcreate
    exact ⟨rfl, rfl⟩

theorem sound_of_create {settings : Settings} {keypad : Keypad} {random : RandomSource}
    (hcreate : create settings keypad random = .ok m) : m.Sound := by
  obtain ⟨hscreen, hparts⟩ := eq_of_create hcreate
  have hwell := Screen.wellFormed_of_create hscreen
  have hstart : Memory.programStart.toNat ≤ pcLimit := by decide
  rw [hparts]
  refine ⟨?_, ⟨Nat.zero_le _, fun a ha => absurd ha List.not_mem_nil⟩, hstart, hwell.1, hwell.2⟩
  show (Memory.blank.write Font.base Font.builtIn.bytes).size = Memory.capacity
  rw [Memory.size_write, Memory.size_blank]

/-- Every machine that there can be is sound. -/
theorem Reachable.sound (h : Reachable m) : m.Sound := by
  induction h with
  | create hcreate => exact sound_of_create hcreate
  | loadFont font h ih => exact ih.of_size_eq (Memory.size_write _ _ _)
  | @loadProgram m m' program h hload ih =>
    rw [loadProgram_eq_map, Memory.loadProgram] at hload
    cases hcheck : m.memory.checkProgram program.length with
    | error cause =>
      rw [hcheck] at hload
      cases hload
    | ok _ =>
      rw [hcheck] at hload
      cases hload
      exact ih.of_size_eq (Memory.size_write _ _ _)
  | step h hrun ih => exact ih.of_stepped (stepped_of_run hrun)
  | @halt m m' halt h hrun ih =>
    cases halt with
    | error e => exact ih.of_stopped (stopped_of_run hrun)
    | fault f => exact absurd hrun (run_step_ne_fault ih.screen f m')
  | surroundings keypad timers random h ih => exact ih.surroundings keypad timers random

theorem Reachable.extend {r : Run} (h : Reachable r.machine) (steps : Nat) :
    Reachable (r.extend steps).machine := by
  induction steps generalizing r with
  | zero => exact h
  | succ n ih =>
    rw [Run.extend]
    cases hrun : Machine.step.run r.machine with
    | ok notice m' => exact ih (h.step hrun)
    | error halt m' => exact h.halt hrun

/-- A run of steps goes from one of these machines to another. -/
theorem Reachable.run (h : Reachable m) (steps : Nat) : Reachable (m.run steps).machine :=
  Reachable.extend h steps

theorem Sound.exactSums (h : m.Sound) : m.ExactSums := by
  have hpc : m.pc.toNat ≤ 0x10FE := h.pc_le
  have hfetch : (m.pc + 2).toNat = m.pc.toNat + 2 := Word.toNat_add_two (by omega)
  constructor
  · exact hfetch
  · rw [Word.toNat_add_two (by omega), hfetch]
  · intro word nnn hdecode
    have hrange : (Instruction.jumpPlus nnn).InRange := Instruction.inRange_of_decode? hdecode
    exact jumpPlus_toNat hrange m.registers[0]
  · intro x y hx hy
    refine ⟨Screen.cellNumber_lt h.screen hx hy, ?_⟩
    rw [h.screen.size_cells]
    exact h.storage

/-- Whatever the program, the fonts, the random bytes and the doings of others are: every machine
that there can be is sound, its next step does not fault, and its sums are exact. -/
theorem no_program_faults (h : Reachable m) :
    m.Sound ∧ (∀ f m', step.run m ≠ .error (.fault f) m') ∧ m.ExactSums :=
  ⟨h.sound, run_step_ne_fault h.sound.screen, h.sound.exactSums⟩

/-- The smallest machine, asked for with no rows and no columns. -/
def smallest : Machine :=
  { settings := { rows := 0, cols := 0 }, memory := Memory.blank.loadFont Font.builtIn
    timers := Timers.running, screen := Screen.blank 0 0, keypad := {}, random := .cycle #[] }

/-- It draws the top of a glyph, the four pixels of which meet in its only cell, and then halts
because there is nothing to return from. -/
theorem no_program_faults_smallest :
    create smallest.settings smallest.keypad smallest.random = .ok smallest ∧
    ∃ m, smallest.loadProgram [0xA0, 0x50, 0xD0, 0x01, 0x00, 0xEE] = .ok m ∧
      (m.run 4).pcs = #[0x202, 0x204, 0x206] ∧ (m.run 4).machine.Sound ∧
      (∀ f m', step.run (m.run 4).machine ≠ .error (.fault f) m') ∧
      (m.run 4).machine.ExactSums := by
  have hcreate : create smallest.settings smallest.keypad smallest.random = .ok smallest := rfl
  have hspace : smallest.memory.programSpace = Memory.capacity - Memory.programStart.toNat := by
    rw [Memory.programSpace, (sound_of_create hcreate).memory_size]
  have hfits : [0xA0, 0x50, 0xD0, 0x01, 0x00, (0xEE : UInt8)].length ≤
      smallest.memory.programSpace := by
    rw [hspace]
    decide
  have hload := loadProgram_of_le hfits
  have hreachable := Reachable.loadProgram (.create hcreate) hload
  exact ⟨hcreate, _, hload, by decide +kernel, no_program_faults (hreachable.run 4)⟩

end Machine

end Chip8
