import Chip8.Proofs.Machine.History

/-!
# What surrounds a machine

A machine has its timers, its keypad and its source of random bytes in common with others, who change
them at any time. All else is its own. `Machine.Alike` relates two machines that have the same things of
their own and may differ in everything that surrounds them.

Five instructions read what surrounds the machine (`Instruction.readsSurroundings`). The others may write
it, and yet a computation that carries one of them out ends in the same way on machines that are alike,
and leaves machines that are alike: `Exec.Parallel` says so of two computations, with one lemma for each
way of putting computations together and for each primitive. So as long as two machines do not carry
out any of the five, nobody can tell from their results what others did in the meantime
(`Machine.surroundings_unseen`).
-/

namespace Chip8

/-- Does the instruction read the delay timer, the keypad or the source of random bytes? -/
def Instruction.readsSurroundings : Instruction → Bool
  | random .. | skipIfHeld _ | skipIfNotHeld _ | register .getDelay _ | register .awaitKey _ => true
  | _ => false

namespace Machine

/-- The machines have the same things of their own. -/
structure Alike (m m' : Machine) : Prop where
  opcode : m'.opcode = m.opcode
  memory : m'.memory = m.memory
  registers : m'.registers = m.registers
  index : m'.index = m.index
  pc : m'.pc = m.pc
  stack : m'.stack = m.stack
  screen : m'.screen = m.screen

theorem Alike.refl (m : Machine) : Alike m m := ⟨rfl, rfl, rfl, rfl, rfl, rfl, rfl⟩

/-- The results tell the same, of machines that are alike. -/
inductive SameResult {α : Type} :
    EStateM.Result Halt Machine α → EStateM.Result Halt Machine α → Prop
  | ok {a : α} {m m' : Machine} (h : Alike m m') : SameResult (.ok a m) (.ok a m')
  | error {halt : Halt} {m m' : Machine} (h : Alike m m') :
      SameResult (.error halt m) (.error halt m')

end Machine

namespace Exec

open Machine

/-- The computations, begun on machines that are alike, have the same result. -/
def Parallel {α : Type} (x y : Exec α) : Prop :=
  ∀ m m', Alike m m' → SameResult (x.run m) (y.run m')

section Combinators

variable {α β : Type}

theorem parallel_pure (a : α) : Parallel (pure a) (pure a) := fun _ _ h => .ok h

theorem parallel_throw (halt : Halt) : Parallel (throw halt : Exec α) (throw halt) :=
  fun _ _ h => .error h

theorem parallel_bind {x y : Exec α} {f g : α → Exec β} (h : Parallel x y)
    (hrest : ∀ a, Parallel (f a) (g a)) : Parallel (x >>= f) (y >>= g) := by
  intro m m' halike
  have hx := h m m' halike
  rw [EStateM.run_bind, EStateM.run_bind]
  generalize x.run m = result at hx
  generalize y.run m' = result' at hx
  cases hx with
  | ok h' => exact hrest _ _ _ h'
  | error h' => exact .error h'

/-- What follows reads the machine, so there are two computations that follow. -/
theorem parallel_get {f g : Machine → Exec α}
    (h : ∀ m m', Alike m m' → Parallel (f m) (g m')) : Parallel (get >>= f) (get >>= g) :=
  fun m m' halike => h m m' halike m m' halike

theorem parallel_modify {f g : Machine → Machine} (h : ∀ m m', Alike m m' → Alike (f m) (g m')) :
    Parallel (modify f) (modify g) :=
  fun m m' halike => .ok (h m m' halike)

theorem parallel_checked (result : Except Fault α) :
    Parallel (checked result) (checked result) := by
  cases result with
  | ok a => exact parallel_pure a
  | error f => exact parallel_throw _

theorem parallel_orError {ε : Type} (error : ε → ExecutionError) (result : Except ε α) :
    Parallel (orError error result) (orError error result) := by
  cases result with
  | ok a => exact parallel_pure a
  | error cause => exact parallel_throw _

end Combinators

/-! ### Primitives -/

theorem parallel_register (x : Nat) : Parallel (register x) (register x) := by
  refine parallel_get fun m m' h => ?_
  rw [h.registers]
  split
  · exact parallel_pure _
  · exact parallel_throw _

theorem parallel_setRegister (x : Nat) (value : UInt8) :
    Parallel (setRegister x value) (setRegister x value) := by
  rw [setRegister]
  split
  · next hx =>
    refine parallel_modify fun m m' h => { h with registers := ?_ }
    show m'.registers.set x value hx = m.registers.set x value hx
    rw [h.registers]
  · exact parallel_throw _

theorem parallel_registersUpTo (x : Nat) : Parallel (registersUpTo x) (registersUpTo x) := by
  rw [registersUpTo]
  split
  · refine parallel_get fun m m' h => ?_
    rw [h.registers]
    exact parallel_pure _
  · exact parallel_throw _

theorem parallel_indexedBlock (len : Nat) : Parallel (indexedBlock len) (indexedBlock len) := by
  refine parallel_get fun m m' h => ?_
  rw [h.index, h.memory]
  refine parallel_bind (parallel_checked _) fun _ => ?_
  exact parallel_bind (parallel_orError _ _) fun _ => parallel_pure _

theorem parallel_writeBlock (start : Nat) (bytes : List UInt8) :
    Parallel (writeBlock start bytes) (writeBlock start bytes) := by
  refine parallel_modify fun m m' h => { h with memory := ?_ }
  show m'.memory.write start bytes = m.memory.write start bytes
  rw [h.memory]

theorem parallel_popAddress : Parallel popAddress popAddress := by
  refine parallel_get fun m m' h => ?_
  rw [h.stack]
  refine parallel_bind (parallel_orError _ _) fun popped => ?_
  exact parallel_bind (parallel_modify fun m m' h => { h with stack := rfl }) fun _ => parallel_pure _

theorem parallel_pushAddress (address : UInt16) :
    Parallel (pushAddress address) (pushAddress address) := by
  refine parallel_get fun m m' h => ?_
  rw [h.stack]
  refine parallel_bind (parallel_orError _ _) fun stack => ?_
  exact parallel_modify fun m m' h => { h with stack := rfl }

/-! ### Instructions -/

theorem parallel_alu (op : AluOp) (x y : Nat) : Parallel (alu op x y) (alu op x y) := by
  refine parallel_bind (parallel_register x) fun a => ?_
  refine parallel_bind (parallel_register y) fun b => ?_
  refine parallel_bind (parallel_setRegister x _) fun _ => ?_
  split
  · exact parallel_setRegister _ _
  · exact parallel_pure _

theorem parallel_draw (x y n : Nat) : Parallel (draw x y n) (draw x y n) := by
  refine parallel_bind (parallel_indexedBlock n) fun start => parallel_get fun m m' h => ?_
  rw [h.screen, h.memory]
  refine parallel_bind (parallel_register x) fun a => ?_
  refine parallel_bind (parallel_checked _) fun left => ?_
  refine parallel_bind (parallel_register y) fun b => ?_
  refine parallel_bind (parallel_checked _) fun top => ?_
  refine parallel_bind (parallel_checked _) fun drawn => ?_
  refine parallel_bind (parallel_modify fun m m' h => { h with screen := rfl }) fun _ => ?_
  exact parallel_setRegister _ _

theorem parallel_addToIndex (x : Nat) : Parallel (addToIndex x) (addToIndex x) := by
  refine parallel_bind (parallel_register x) fun value => parallel_get fun m m' h => ?_
  rw [h.index]
  refine parallel_bind (parallel_modify fun m m' h => { h with index := rfl }) fun _ => ?_
  split
  · exact parallel_setRegister _ _
  · exact parallel_pure _

/-- An operation that starts a timer writes what surrounds the machine, and nothing of its own. -/
theorem parallel_registerOp {op : RegisterOp} {x : Nat}
    (hreads : (Instruction.register op x).readsSurroundings = false) :
    Parallel (registerOp op x) (registerOp op x) := by
  cases op with
  | getDelay | awaitKey => cases hreads
  | setDelay | setSound =>
    refine parallel_bind (parallel_register x) fun value => ?_
    exact parallel_modify fun m m' h => { h with }
  | addToIndex => exact parallel_addToIndex x
  | pointToGlyph =>
    refine parallel_bind (parallel_register x) fun value => ?_
    refine parallel_bind (parallel_checked _) fun index => ?_
    exact parallel_modify fun m m' h => { h with index := rfl }
  | storeDigits =>
    refine parallel_bind (parallel_register x) fun value => ?_
    exact parallel_bind (parallel_indexedBlock 3) fun start => parallel_writeBlock start _
  | storeRegisters =>
    refine parallel_bind (parallel_checked _) fun len => ?_
    refine parallel_bind (parallel_indexedBlock len) fun start => ?_
    exact parallel_bind (parallel_registersUpTo x) fun bytes => parallel_writeBlock start bytes
  | loadRegisters =>
    refine parallel_bind (parallel_checked _) fun len => ?_
    refine parallel_bind (parallel_indexedBlock len) fun start => ?_
    refine parallel_bind (parallel_registersUpTo x) fun _ => ?_
    refine parallel_modify fun m m' h => { h with registers := ?_ }
    show m'.registers.overwrite (m'.memory.block start len) =
      m.registers.overwrite (m.memory.block start len)
    rw [h.registers, h.memory]

theorem parallel_perform {instruction : Instruction} (hreads : instruction.readsSurroundings = false) :
    Parallel (perform instruction) (perform instruction) := by
  cases instruction with
  | random | skipIfHeld | skipIfNotHeld => cases hreads
  | clear =>
    refine parallel_bind (parallel_modify fun m m' h => { h with screen := ?_ }) fun _ => parallel_pure _
    show m'.screen.clear = m.screen.clear
    rw [h.screen]
  | ret => exact parallel_bind parallel_popAddress fun address => parallel_pure _
  | jump nnn => exact parallel_pure _
  | call nnn =>
    refine parallel_get fun m m' h => ?_
    rw [h.pc]
    exact parallel_bind (parallel_pushAddress m.pc) fun _ => parallel_pure _
  | skipIfEqual x nn | skipIfNotEqual x nn =>
    exact parallel_bind (parallel_register x) fun a => parallel_pure _
  | skipIfSame x y | skipIfDifferent x y =>
    refine parallel_bind (parallel_register x) fun a => ?_
    exact parallel_bind (parallel_register y) fun b => parallel_pure _
  | set x nn => exact parallel_bind (parallel_setRegister x nn) fun _ => parallel_pure _
  | add x nn =>
    refine parallel_bind (parallel_register x) fun a => ?_
    exact parallel_bind (parallel_setRegister x _) fun _ => parallel_pure _
  | alu op x y => exact parallel_bind (parallel_alu op x y) fun _ => parallel_pure _
  | setIndex nnn =>
    exact parallel_bind (parallel_modify fun m m' h => { h with index := rfl }) fun _ => parallel_pure _
  | jumpPlus nnn => exact parallel_bind (parallel_register 0) fun a => parallel_pure _
  | draw x y n => exact parallel_bind (parallel_draw x y n) fun _ => parallel_pure _
  | register op x => exact parallel_bind (parallel_registerOp hreads) fun _ => parallel_pure _

theorem parallel_execute {instruction : Instruction} (hreads : instruction.readsSurroundings = false) :
    Parallel (execute instruction) (execute instruction) := by
  refine parallel_bind (parallel_perform hreads) fun result => ?_
  refine parallel_bind (parallel_modify fun m m' h => { h with pc := ?_ }) fun _ => parallel_pure _
  show result.1.apply m'.pc = result.1.apply m.pc
  rw [h.pc]

end Exec

namespace Machine

/-! ### One step -/

/-- The next step carries out an instruction that reads what surrounds the machine. -/
def ReadsSurroundings (m : Machine) : Prop :=
  ∃ instruction, m.Fetches instruction ∧ instruction.readsSurroundings = true

variable {m m' : Machine}

theorem Alike.fetched (h : Alike m m') (word : UInt16) : Alike (m.fetched word) (m'.fetched word) := by
  refine { h with opcode := rfl, pc := ?_ }
  show m'.pc + 2 = m.pc + 2
  rw [h.pc]

/-- Machines that are alike fetch the same word, and do the same with it. -/
theorem Alike.run_step (h : Alike m m') (hreads : ¬ m.ReadsSurroundings) :
    SameResult (step.run m) (step.run m') := by
  have hsame : m'.memory.wordAt m'.pc.toNat = m.memory.wordAt m.pc.toNat := by
    rw [h.memory, h.pc]
  cases hword : m.memory.wordAt m.pc.toNat with
  | error cause =>
    rw [run_unreadable hword, run_unreadable (hsame.trans hword)]
    exact .error h
  | ok word =>
    have hword' : m'.memory.wordAt m'.pc.toNat = .ok word := hsame.trans hword
    cases hdecode : Instruction.decode? word with
    | none =>
      rw [run_unknown hword hdecode, run_unknown hword' hdecode]
      exact .ok (h.fetched word)
    | some instruction =>
      have hblind : instruction.readsSurroundings = false :=
        Bool.eq_false_iff.mpr fun hread => hreads ⟨_, fetches_of_decode? hword hdecode, hread⟩
      rw [run_instruction hword hdecode, run_instruction hword' hdecode]
      exact Exec.parallel_execute hblind _ _ (h.fetched word)

theorem not_readsSurroundings {word : UInt16} {instruction : Instruction}
    (hword : m.memory.wordAt m.pc.toNat = .ok word)
    (hdecode : Instruction.decode? word = some instruction)
    (hblind : instruction.readsSurroundings = false) : ¬ m.ReadsSurroundings := by
  intro hreads
  obtain ⟨other, hother, hread⟩ := hreads
  rw [hother.unique (fetches_of_decode? hword hdecode), hblind] at hread
  cases hread

theorem SameResult.machine {r r' : StepResult} (h : SameResult r r') :
    Alike r.machine r'.machine := by
  cases h with
  | ok h => exact h
  | error h => exact h

/-! ### Runs -/

/-- What can come from outside between two steps. -/
inductive Stimulus where
  /-- A key action, or a ticker calls back. -/
  | influence (i : Influence)
  /-- Both timers count. -/
  | tick
  /-- Other random bytes will be handed out from now on. -/
  | random (source : RandomSource)

def stimulate (m : Machine) : Stimulus → Machine
  | .influence i => m.influence i
  | .tick => { m with timers := m.timers.tick }
  | .random source => { m with random := source }

/-- The machine from which step number `i` starts, if the stimuli `schedule i` come just before it. -/
def startOf (m : Machine) (schedule : Nat → List Stimulus) : Nat → Machine
  | 0 => (schedule 0).foldl stimulate m
  | i + 1 => (schedule (i + 1)).foldl stimulate (m.startOf schedule i).next

/-- What comes from outside changes nothing of a machine's own. -/
theorem alike_stimulate (m : Machine) (stimulus : Stimulus) : Alike m (m.stimulate stimulus) := by
  cases stimulus with
  | influence i => cases i <;> exact ⟨rfl, rfl, rfl, rfl, rfl, rfl, rfl⟩
  | tick => exact ⟨rfl, rfl, rfl, rfl, rfl, rfl, rfl⟩
  | random source => exact ⟨rfl, rfl, rfl, rfl, rfl, rfl, rfl⟩

theorem Alike.symm (h : Alike m m') : Alike m' m :=
  ⟨h.opcode.symm, h.memory.symm, h.registers.symm, h.index.symm, h.pc.symm, h.stack.symm,
    h.screen.symm⟩

theorem Alike.trans {m'' : Machine} (h : Alike m m') (h' : Alike m' m'') : Alike m m'' :=
  ⟨h'.opcode.trans h.opcode, h'.memory.trans h.memory, h'.registers.trans h.registers,
    h'.index.trans h.index, h'.pc.trans h.pc, h'.stack.trans h.stack, h'.screen.trans h.screen⟩

theorem alike_foldl_stimulate (m : Machine) (stimuli : List Stimulus) :
    Alike m (stimuli.foldl stimulate m) := by
  induction stimuli generalizing m with
  | nil => exact .refl m
  | cons stimulus rest ih => exact (alike_stimulate m stimulus).trans (ih _)

/-- Machines that are alike stay so whatever comes from outside, to the one or to the other. -/
theorem Alike.stimulated (h : Alike m m') (stimuli stimuli' : List Stimulus) :
    Alike (stimuli.foldl stimulate m) (stimuli'.foldl stimulate m') :=
  ((alike_foldl_stimulate m stimuli).symm.trans h).trans (alike_foldl_stimulate m' stimuli')

theorem alike_startOf (h : Alike m m') (schedule schedule' : Nat → List Stimulus) (n : Nat)
    (hreads : ∀ i < n, ¬ (m.startOf schedule i).ReadsSurroundings) :
    Alike (m.startOf schedule n) (m'.startOf schedule' n) := by
  induction n with
  | zero => exact h.stimulated _ _
  | succ n ih =>
    have hstarts := ih fun i hi => hreads i (Nat.lt_succ_of_lt hi)
    have hstep := hstarts.run_step (hreads n (Nat.lt_succ_self n))
    exact hstep.machine.stimulated _ _

/-- As long as a machine does not read what surrounds it, its results are those of every machine that
has the same things of its own: whatever keys are pressed, however often and when the timers count, and
whatever the random bytes are. With one machine and two schedules, ticks of its timers can be put
before other steps. -/
theorem surroundings_unseen (h : Alike m m') (schedule schedule' : Nat → List Stimulus) (n : Nat)
    (hreads : ∀ i < n, ¬ (m.startOf schedule i).ReadsSurroundings) :
    ∀ i < n, SameResult (step.run (m.startOf schedule i)) (step.run (m'.startOf schedule' i)) := by
  intro i hi
  have hbefore : ∀ j < i, ¬ (m.startOf schedule j).ReadsSurroundings :=
    fun j hj => hreads j (Nat.lt_trans hj hi)
  exact (alike_startOf h schedule schedule' i hbefore).run_step (hreads i hi)

/-- A machine that starts the delay timer and then counts for itself. -/
def metronome : Machine :=
  { settings := {}, memory := ⟨#[0xF1, 0x15, 0x71, 0x01]⟩, pc := 0, timers := {}
    screen := .blank 1 1, keypad := {}, random := .cycle #[] }

/-- The same, where a key is pressed and both timers count before each step. -/
theorem surroundings_unseen_metronome :
    let crowded : Machine := { metronome with timers := Timers.running, random := .cycle #[7] }
    let quiet : Nat → List Stimulus := fun _ => []
    let busy : Nat → List Stimulus := fun i =>
      [.influence (.key (.press 3)), .tick, .random (.cycle #[UInt8.ofNat i])]
    Alike metronome crowded ∧ (∀ i < 2, ¬ (metronome.startOf quiet i).ReadsSurroundings) ∧
      ∀ i < 2, SameResult (step.run (metronome.startOf quiet i))
        (step.run (crowded.startOf busy i)) := by
  intro crowded quiet busy
  have halike : Alike metronome crowded := ⟨rfl, rfl, rfl, rfl, rfl, rfl, rfl⟩
  have hfirst : ¬ (metronome.startOf quiet 0).ReadsSurroundings := by
    have hhigh : metronome.memory.bytes[0]? = some 0xF1 := by decide
    have hlow : metronome.memory.bytes[1]? = some 0x15 := by decide
    have hword : metronome.memory.wordAt metronome.pc.toNat = .ok 0xF115 :=
      Memory.wordAt_of_getElem? hhigh hlow
    have hdecode : Instruction.decode? 0xF115 = some (.register .setDelay 1) := by decide
    exact not_readsSurroundings hword hdecode rfl
  have hsecond : ¬ (metronome.startOf quiet 1).ReadsSurroundings := by
    have hpc : (metronome.startOf quiet 1).pc.toNat = 2 := by decide +kernel
    have hhigh : (metronome.startOf quiet 1).memory.bytes[2]? = some 0x71 := by decide +kernel
    have hlow : (metronome.startOf quiet 1).memory.bytes[3]? = some 0x01 := by decide +kernel
    have hword : (metronome.startOf quiet 1).memory.wordAt (metronome.startOf quiet 1).pc.toNat =
        .ok 0x7101 := by
      rw [hpc]
      exact Memory.wordAt_of_getElem? hhigh hlow
    have hdecode : Instruction.decode? 0x7101 = some (.add 1 1) := by decide
    exact not_readsSurroundings hword hdecode rfl
  have hreads : ∀ i < 2, ¬ (metronome.startOf quiet i).ReadsSurroundings := by
    intro i hi
    obtain rfl | rfl : i = 0 ∨ i = 1 := by omega
    · exact hfirst
    · exact hsecond
  exact ⟨halike, hreads, surroundings_unseen halike quiet busy 2 hreads⟩

end Machine

end Chip8
