import Chip8.Proofs.Machine.History
import Chip8.Proofs.Machine.Soundness

/-!
# What an instruction writes

`Instruction.writeSet` lists the parts of a machine that an instruction may write. All other parts are
the same after a step as before it, whatever the step answers (`Machine.next_inFrame`): an instruction
that goes through writes no more than its write set, one that fails writes nothing but the keypad, and
a word that is no instruction writes nothing at all. The program counter and the last word are no
parts in this sense; every fetch moves them.

The settings, the size of the screen and that of memory are never written. Each instruction that asks
for a random byte takes one byte from the source, and no other instruction takes any; so over a
history the bytes are handed out one after the other.
-/

namespace Chip8

/-- The parts of a machine that instructions write. -/
inductive Part where
  | screen
  | stack
  | index
  | delay
  | sound
  | random
  | keypad
  | register (number : Nat)
  | byte (address : Nat)
  deriving DecidableEq, Repr

/-- The part is the same in both machines. -/
def Part.Same (m m' : Machine) : Part → Prop
  | screen => m'.screen = m.screen
  | stack => m'.stack = m.stack
  | index => m'.index = m.index
  | delay => m'.timers.delay = m.timers.delay
  | sound => m'.timers.sound = m.timers.sound
  | random => m'.random = m.random
  | keypad => m'.keypad = m.keypad
  | register number => m'.registers[number]? = m.registers[number]?
  | byte address => m'.memory.bytes[address]? = m.memory.bytes[address]?

/-- The operations of which the flag is written as well. -/
def AluOp.setsFlag : AluOp → Bool
  | .copy | .or | .and | .xor => false
  | .add | .sub | .shiftRight | .subFrom | .shiftLeft => true

namespace Instruction

/-- The first so many bytes from an address on. -/
def blockParts (start len : Nat) : List Part := (List.range len).map fun k => .byte (start + k)

/-- The parts that an instruction may write, where the index register holds `start`. -/
def writeSet (start : Nat) : Instruction → List Part
  | clear => [.screen]
  | ret | call _ => [.stack]
  | set x _ | add x _ => [.register x]
  | alu op x _ => if op.setsFlag then [.register x, .register Registers.flag] else [.register x]
  | setIndex _ => [.index]
  | random x _ => [.register x, .random]
  | draw .. => [.screen, .register Registers.flag]
  | skipIfHeld _ | skipIfNotHeld _ => [.keypad]
  | register op x =>
    match op with
    | .getDelay => [.register x]
    | .awaitKey => [.register x, .keypad]
    | .setDelay => [.delay]
    | .setSound => [.sound]
    | .addToIndex => [.index, .register Registers.flag]
    | .pointToGlyph => [.index]
    | .storeDigits => blockParts start 3
    | .storeRegisters => blockParts start (x + 1)
    | .loadRegisters => (List.range (x + 1)).map .register
  | jump _ | jumpPlus _ | skipIfEqual .. | skipIfNotEqual .. | skipIfSame .. | skipIfDifferent .. => []

theorem outside_of_notMem {start len address : Nat} (h : .byte address ∉ blockParts start len) :
    address < start ∨ start + len ≤ address := by
  rcases Nat.lt_or_ge address start with hbefore | hstart
  · exact .inl hbefore
  · refine .inr (Nat.le_of_not_lt fun hlt => h ?_)
    have haddress : start + (address - start) = address := by omega
    refine List.mem_map.mpr ⟨address - start, List.mem_range.mpr (by omega), ?_⟩
    rw [haddress]

end Instruction

theorem AluOp.isSome_flag (op : AluOp) (a b : UInt8) : (op.apply a b).2.isSome = op.setsFlag := by
  cases op <;> rfl

/-! ### Registers -/

namespace Registers

variable {r : Registers} {number : Nat}

theorem getElem?_set_of_ne {x : Nat} (hx : x < 16) (value : UInt8) (hne : number ≠ x) :
    (r.set x value hx)[number]? = r[number]? :=
  Vector.getElem?_set_ne hx (Ne.symm hne)

theorem getElem?_withFlag_of_ne (value : UInt8) (hne : number ≠ flag) :
    (r.withFlag value)[number]? = r[number]? :=
  getElem?_set_of_ne flag_lt value hne

/-- Replacing the first registers leaves the others. -/
theorem getElem?_overwrite_of_le {values : List UInt8} (h : values.length ≤ number) :
    (r.overwrite values)[number]? = r[number]? := by
  by_cases hnumber : number < 16
  · have hnone : values[number]? = none := List.getElem?_eq_none h
    rw [Vector.getElem?_eq_getElem hnumber, Vector.getElem?_eq_getElem hnumber, overwrite,
      Vector.getElem_ofFn]
    rw [hnone]
    rfl
  · rw [Vector.getElem?_eq_none (Nat.le_of_not_lt hnumber),
      Vector.getElem?_eq_none (Nat.le_of_not_lt hnumber)]

theorem getElem?_combine_of_ne {op : AluOp} {x y : Nat} (hx : x < 16) (hy : y < 16)
    (hne : number ≠ x) (hflag : op.setsFlag = true → number ≠ flag) :
    (r.combine op x y hx hy)[number]? = r[number]? := by
  have hsets := op.isSome_flag r[x] r[y]
  rw [combine]
  cases hresult : (op.apply r[x] r[y]).2 with
  | none => exact getElem?_set_of_ne hx _ hne
  | some value =>
    rw [hresult] at hsets
    dsimp only
    rw [getElem?_withFlag_of_ne value (hflag hsets.symm)]
    exact getElem?_set_of_ne hx _ hne

end Registers

/-! ### Instructions that go through -/

namespace Exec

variable {m m' : Machine} {instruction : Instruction} {flow : Flow} {notice : Notice}

theorem Effect.register_same (h : Effect m instruction flow notice m') {number : Nat}
    (hnot : .register number ∉ instruction.writeSet m.index.toNat) :
    m'.registers[number]? = m.registers[number]? := by
  cases h with
  | set hx | add hx | random hx | getDelay hx | awaitKey hx hkey =>
    simp only [Instruction.writeSet, List.mem_cons, Part.register.injEq, not_or] at hnot
    exact Registers.getElem?_set_of_ne hx _ hnot.1
  | alu hx hy =>
    simp only [Instruction.writeSet] at hnot
    refine Registers.getElem?_combine_of_ne hx hy ?_ ?_
    · rintro rfl
      apply hnot
      split <;> simp
    · rintro hsets rfl
      apply hnot
      simp [hsets]
  | draw hx hy hblock hdraw =>
    simp only [Instruction.writeSet, List.mem_cons, Part.register.injEq, not_or] at hnot
    exact Registers.getElem?_withFlag_of_ne _ hnot.2.1
  | addToIndex hx =>
    simp only [Instruction.writeSet, List.mem_cons, Part.register.injEq, not_or] at hnot
    dsimp only
    split
    · exact Registers.getElem?_withFlag_of_ne _ hnot.2.1
    · rfl
  | @loadRegisters x hx hblock =>
    have hlen := length_block_le m.memory m.index.toNat (x + 1)
    have hbeyond : x < number := by
      refine Nat.lt_of_not_le fun hle => hnot ?_
      exact List.mem_map.mpr ⟨number, List.mem_range.mpr (Nat.lt_succ_of_le hle), rfl⟩
    exact Registers.getElem?_overwrite_of_le (Nat.le_trans hlen hbeyond)
  | _ => rfl

theorem Effect.byte_same (h : Effect m instruction flow notice m') {address : Nat}
    (hnot : .byte address ∉ instruction.writeSet m.index.toNat) :
    m'.memory.bytes[address]? = m.memory.bytes[address]? := by
  cases h with
  | storeDigits hx hblock =>
    exact Memory.getElem?_write_of_outside _ (Instruction.outside_of_notMem hnot)
  | @storeRegisters x hx hblock =>
    have hlen : (m.registers.toList.take (x + 1)).length = x + 1 := by
      simp
      omega
    have houtside := Instruction.outside_of_notMem hnot
    rw [← hlen] at houtside
    exact Memory.getElem?_write_of_outside _ houtside
  | _ => rfl

/-- An instruction that goes through writes no more than its write set. -/
theorem Effect.same (h : Effect m instruction flow notice m') {part : Part}
    (hnot : part ∉ instruction.writeSet m.index.toNat) : part.Same m m' := by
  cases part with
  | register number => exact h.register_same hnot
  | byte address => exact h.byte_same hnot
  | screen =>
    cases h with
    | clear | draw => simp [Instruction.writeSet] at hnot
    | _ => rfl
  | stack =>
    cases h with
    | ret | call => simp [Instruction.writeSet] at hnot
    | _ => rfl
  | index =>
    cases h with
    | setIndex | addToIndex | pointToGlyph => simp [Instruction.writeSet] at hnot
    | _ => rfl
  | delay =>
    cases h with
    | setDelay => simp [Instruction.writeSet] at hnot
    | _ => rfl
  | sound =>
    cases h with
    | setSound => simp [Instruction.writeSet] at hnot
    | _ => rfl
  | random =>
    cases h with
    | random => simp [Instruction.writeSet] at hnot
    | _ => rfl
  | keypad =>
    cases h with
    | skipIfHeld | skipIfNotHeld | awaitKey => simp [Instruction.writeSet] at hnot
    | _ => rfl

theorem Effect.settings_eq (h : Effect m instruction flow notice m') : m'.settings = m.settings := by
  cases h <;> rfl

/-- Of the timers no more than the counters are written. -/
theorem Effect.timers_eq (h : Effect m instruction flow notice m') :
    m'.timers = { m.timers with delay := m'.timers.delay, sound := m'.timers.sound } := by
  cases h <;> rfl

end Exec

/-! ### Steps -/

namespace Machine

open Exec

/-- A step has written no more than it may. -/
structure InFrame (m m' : Machine) : Prop where
  same : ∀ part : Part, (∀ instruction, m.Fetches instruction →
    part ∉ instruction.writeSet m.index.toNat) → part.Same m m'
  settings : m'.settings = m.settings
  timers : m'.timers = { m.timers with delay := m'.timers.delay, sound := m'.timers.sound }
  sameSize : Screen.SameSize m.screen m'.screen
  memory_size : m'.memory.size = m.memory.size
  /-- The byte that is asked for is the next one of the source, and the only one that is taken. -/
  random : ∀ x nn, m.Fetches (.random x nn) → m'.random = m.random.take.2 ∧
    m'.registers[x]? = some (nn &&& m.random.take.1)

variable {m m' : Machine}

/-- The program counter and the last word are no parts. -/
theorem same_continued {m₁ : Machine} {word : UInt16} {part : Part}
    (h : part.Same (m.fetched word) m₁) (flow : Flow) : part.Same m (m₁.continued flow) := by
  cases part <;> exact h

theorem same_fetched (m : Machine) (word : UInt16) (part : Part) : part.Same m (m.fetched word) := by
  cases part <;> rfl

theorem inFrame_of_stepped (hscreen : m.screen.WellFormed) {notice : Notice}
    (h : Stepped m notice m') : InFrame m m' := by
  cases h with
  | @unknown word hword hdecode =>
    refine ⟨fun part _ => same_fetched m word part, rfl, rfl, Screen.SameSize.refl _, rfl, ?_⟩
    intro x nn hnext
    cases hdecode.symm.trans (hnext.decode?_eq hword)
  | executed hword hdecode heffect =>
    have hnext := fetches_of_decode? hword hdecode
    have hrange := Instruction.inRange_of_decode? hdecode
    refine ⟨?_, heffect.settings_eq, heffect.timers_eq, heffect.sameSize hrange hscreen,
      heffect.memory_size, ?_⟩
    · intro part hnot
      exact same_continued (heffect.same (hnot _ hnext)) _
    · intro x nn hnext'
      cases hnext.unique hnext'
      cases heffect with
      | random hx =>
        refine ⟨rfl, ?_⟩
        exact Vector.getElem?_set_self hx

/-- A step that halts has fetched a word at most, and slept through what others did to the keypad. -/
theorem inFrame_of_stopped {e : ExecutionError} (h : Stopped m e m') : InFrame m m' := by
  cases h with
  | fetch hword =>
    refine ⟨?_, rfl, rfl, Screen.SameSize.refl _, rfl, ?_⟩
    · intro part _
      cases part <;> rfl
    · intro x nn hnext
      obtain ⟨word, hword', _⟩ := hnext
      cases hword.symm.trans hword'
  | @execute word instruction _ _ hword hdecode hfailure =>
    have hnext := fetches_of_decode? hword hdecode
    have hrandom : ∀ x nn, ¬ m.Fetches (.random x nn) := by
      intro x nn hnext'
      cases hnext.unique hnext'
      cases hfailure with
      | block hlen hblock => cases hlen
    cases hfailure with
    | awaitKey hkey =>
      refine ⟨?_, rfl, rfl, Screen.SameSize.refl _, rfl, fun x nn h => absurd h (hrandom x nn)⟩
      intro part hnot
      have hnot' := hnot _ hnext
      cases part with
      | keypad => simp [Instruction.writeSet] at hnot'
      | _ => rfl
    | _ =>
      exact ⟨fun part _ => same_fetched m word part, rfl, rfl, Screen.SameSize.refl _, rfl,
        fun x nn h => absurd h (hrandom x nn)⟩

theorem next_inFrame (hscreen : m.screen.WellFormed) : InFrame m m.next :=
  next_cases (answers_of_screen hscreen) (fun _ _ hstep => inFrame_of_stepped hscreen hstep)
    (fun _ _ hstop => inFrame_of_stopped hstop)

/-! ### Histories -/

/-- The next step carries out an instruction that asks for a random byte. -/
def takesByte (m : Machine) : Bool :=
  match m.memory.wordAt m.pc.toNat with
  | .ok word => Word.kind word == 0xC
  | .error _ => false

theorem takesByte_iff : m.takesByte = true ↔ ∃ x nn, m.Fetches (.random x nn) := by
  rw [takesByte]
  constructor
  · intro h
    split at h
    · next word hword => exact ⟨_, _, word, hword, .random (beq_iff_eq.mp h)⟩
    · cases h
  · rintro ⟨x, nn, word, hword, hdenotes⟩
    rw [hword]
    cases hdenotes with
    | random hkind => exact beq_iff_eq.mpr hkind

theorem exists_of_random_mem_writeSet {instruction : Instruction} {start : Nat}
    (h : .random ∈ instruction.writeSet start) : ∃ x nn, instruction = .random x nn := by
  cases instruction with
  | random x nn => exact ⟨x, nn, rfl⟩
  | alu op x y =>
    rw [Instruction.writeSet] at h
    split at h <;> simp at h
  | register op x => cases op <;> simp [Instruction.writeSet, Instruction.blockParts] at h
  | _ => simp [Instruction.writeSet] at h

theorem next_random (hscreen : m.screen.WellFormed) :
    m.next.random =
      { m.random with position := m.random.position + if m.takesByte then 1 else 0 } := by
  have hframe := next_inFrame hscreen
  split
  · next htakes =>
    obtain ⟨x, nn, hnext⟩ := takesByte_iff.mp htakes
    exact (hframe.random x nn hnext).1
  · next htakes =>
    refine hframe.same .random fun instruction hnext hmem => htakes ?_
    obtain ⟨x, nn, rfl⟩ := exists_of_random_mem_writeSet hmem
    exact takesByte_iff.mpr ⟨x, nn, hnext⟩

/-- Over a history one byte is taken for each instruction that asks for one. -/
theorem final_random (hscreen : m.screen.WellFormed) (events : List Event) :
    (m.final events).random =
      { m.random with position := m.random.position + (m.starts events).countP takesByte } := by
  induction events generalizing m with
  | nil => rfl
  | cons event rest ih =>
    cases event with
    | step =>
      have hrest := ih (m := m.next) (screen_wellFormed_of_run hscreen)
      rw [final, hrest, next_random hscreen, starts, List.countP_cons, Nat.add_assoc]
      simp only [Nat.add_comm]
    | outside i =>
      have hscreen' : (m.influence i).screen.WellFormed := by
        rw [influence_screen]
        exact hscreen
      have hrandom : (m.influence i).random = m.random := by
        cases i <;> rfl
      rw [final, ih hscreen', hrandom]
      rfl

/-- What a history leaves as it was. -/
structure Unchanged (m m' : Machine) : Prop where
  settings : m'.settings = m.settings
  sameSize : Screen.SameSize m.screen m'.screen
  memory_size : m'.memory.size = m.memory.size

theorem unchanged_final (hscreen : m.screen.WellFormed) (events : List Event) :
    Unchanged m (m.final events) := by
  have hstart : Unchanged m m := ⟨rfl, Screen.SameSize.refl _, rfl⟩
  refine history_keeps ?_ ?_ hstart events
  · intro u hu
    have hframe := next_inFrame (hscreen.of_sameSize hu.sameSize)
    exact ⟨hframe.settings.trans hu.settings, hu.sameSize.trans hframe.sameSize,
      hframe.memory_size.trans hu.memory_size⟩
  · intro u i hu
    cases i <;> exact ⟨hu.settings, hu.sameSize, hu.memory_size⟩

/-- Every step of a history writes no more than it may. -/
structure Framed (m : Machine) (events : List Event) : Prop where
  steps : ∀ b ∈ m.starts events, InFrame b b.next
  /-- The bytes of the source are stored in the order in which they are handed out. -/
  stored : ∀ earlier b later x nn, m.starts events = earlier ++ b :: later →
    b.Fetches (.random x nn) → b.next.registers[x]? =
      some (nn &&& m.random.stream (m.random.position + earlier.countP takesByte))
  taken : (m.final events).random =
    { m.random with position := m.random.position + (m.starts events).countP takesByte }
  unchanged : Unchanged m (m.final events)

/-- Whatever the program is, each of its steps writes no more than its instruction may. -/
theorem history_framed (hscreen : m.screen.WellFormed) (events : List Event) :
    Framed m events := by
  constructor
  · intro b hmem
    exact next_inFrame (screen_wellFormed_of_mem_starts hscreen hmem)
  · intro earlier b later x nn hstarts hnext
    obtain ⟨before, after, _, hearlier, rfl, _⟩ := starts_split hstarts
    have hstored :=
      ((next_inFrame (screen_wellFormed_final hscreen before)).random x nn hnext).2
    rw [hstored, final_random hscreen before, hearlier]
    rfl
  · exact final_random hscreen events
  · exact unchanged_final hscreen events

/-- A machine that is about to ask for two random bytes. -/
def roller : Machine :=
  { settings := {}, memory := ⟨#[0xC1, 0x0F, 0xC2, 0xF0]⟩, pc := 0, timers := {}
    screen := .blank 1 1, keypad := {}, random := .cycle #[0x12, 0x34] }

/-- Its second instruction gets the upper half of the second byte. -/
theorem history_framed_roller : roller.screen.WellFormed ∧
    ∃ b, roller.starts [.step, .outside (.ticker 0), .step] = [roller, b] ∧
      b.Fetches (.random 2 0xF0) ∧ b.next.registers[2]? = some 0x30 ∧
      (roller.final [.step, .outside (.ticker 0), .step]).random.position = 2 := by
  have hscreen : roller.screen.WellFormed := Screen.wellFormed_blank 1 1
  have hframed := history_framed hscreen [.step, .outside (.ticker 0), .step]
  let b := roller.next.influence (.ticker 0)
  have hstarts : roller.starts [.step, .outside (.ticker 0), .step] = [roller, b] := rfl
  have hhigh : b.memory.bytes[2]? = some 0xC2 := by decide +kernel
  have hlow : b.memory.bytes[3]? = some 0xF0 := by decide +kernel
  have hpc : b.pc.toNat = 2 := by decide +kernel
  have hword : b.memory.wordAt b.pc.toNat = .ok 0xC2F0 := by
    rw [hpc]
    exact Memory.wordAt_of_getElem? hhigh hlow
  have hnext : b.Fetches (.random 2 0xF0) := fetches_of_decode? hword (by decide)
  have hstored := hframed.stored [roller] b [] 2 0xF0 hstarts hnext
  have hfirst : [roller].countP takesByte = 1 := by decide +kernel
  have hboth : (roller.starts [.step, .outside (.ticker 0), .step]).countP takesByte = 2 := by
    decide +kernel
  rw [hfirst] at hstored
  refine ⟨hscreen, b, hstarts, hnext, hstored, ?_⟩
  rw [hframed.taken, hboth]
  rfl

end Machine

end Chip8
