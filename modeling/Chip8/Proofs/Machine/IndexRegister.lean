import Chip8.Proofs.Machine.Errors
import Chip8.Proofs.Machine.Frame
import Chip8.Proofs.Memory.Blocks
import Mathlib.Algebra.GroupWithZero.Nat

/-!
# The index register

Apart from the instructions that point it at an address or at a glyph, only one kind of instruction
writes the index register: those that add a register to it. As long as no step does the former,

* the index register ends at what it was at the beginning, plus all that was added, but not beyond the
  highest word;
* it never decreases, and an addition sets the flag just if the index register then lies beyond the
  addresses that an instruction can name;
* once it does, memory is not written any more, and whatever asks for bytes at the index register halts
  on an error.

`Machine.Saturates` puts this together, for every order of steps and of what others do in between, and
also where steps halt on errors and are followed by others.
-/

namespace Chip8

theorem exists_of_index_mem_writeSet {instruction : Instruction} {start : Nat}
    (h : .index ∈ instruction.writeSet start) :
    (∃ nnn, instruction = .setIndex nnn) ∨ (∃ x, instruction = .register .pointToGlyph x) ∨
      ∃ x, instruction = .register .addToIndex x := by
  cases instruction with
  | setIndex nnn => exact .inl ⟨nnn, rfl⟩
  | alu op x y =>
    rw [Instruction.writeSet] at h
    split at h <;> simp at h
  | register op x =>
    cases op with
    | pointToGlyph => exact .inr (.inl ⟨x, rfl⟩)
    | addToIndex => exact .inr (.inr ⟨x, rfl⟩)
    | _ => simp [Instruction.writeSet, Instruction.blockParts] at h
  | _ => simp [Instruction.writeSet] at h

namespace Machine

open Exec

variable {m m' : Machine} {events : List Event}

/-- The next step points the index register at an address or at a glyph. -/
def Repoints (m : Machine) : Prop :=
  (∃ nnn, m.Fetches (.setIndex nnn)) ∨ ∃ x, m.Fetches (.register .pointToGlyph x)

/-- What the next step adds to the index register: the value of a register, if its instruction adds
one, and else nothing. -/
def addend (m : Machine) : Nat :=
  match m.memory.wordAt m.pc.toNat with
  | .ok word =>
    match Instruction.decode? word with
    | some (.register .addToIndex x) => (m.registers[x]?.getD 0).toNat
    | _ => 0
  | .error _ => 0

/-- Register `x` has been added to the index register. Where `x` is the flag's register, the old flag
is what was added. -/
structure Added (m : Machine) (x : Fin 16) (m' : Machine) : Prop where
  addend : m.addend = (m.registers.get x).toNat
  index : m'.index.toNat = min 0xFFFF (m.index.toNat + (m.registers.get x).toNat)
  set_flag : 0xFFF < m'.index.toNat → m'.registers.get 15 = 1
  keep_flag : m'.index.toNat ≤ 0xFFF → m'.registers.get 15 = m.registers.get 15
  others : ∀ k : Fin 16, k ≠ 15 → m'.registers.get k = m.registers.get k

/-- No step writes to memory, and those that ask for bytes at the index register halt on an error. -/
structure Harmless (m : Machine) (events : List Event) : Prop where
  memory : (m.final events).memory = m.memory
  steps : ∀ b ∈ m.starts events, b.next.memory = b.memory
  fails : ∀ b ∈ m.starts events, ∀ instruction len, b.Fetches instruction →
    instruction.blockLength? = some len → 1 ≤ len → ∃ b', step.run b =
      .error (.error (.memory (.outOfBounds b.index.toNat Memory.capacity))) b'

/-- What becomes of the index register if nothing points it anywhere. -/
structure Saturates (m : Machine) (events : List Event) : Prop where
  final : (m.final events).index.toNat =
    min 0xFFFF (m.index.toNat + ((m.starts events).map addend).sum)
  mono : ∀ before between after, events = before ++ between ++ after →
    (m.final before).index.toNat ≤ (m.final (before ++ between)).index.toNat
  added : ∀ b ∈ m.starts events, ∀ x : Fin 16, b.Fetches (.register .addToIndex x) → b.Added x b.next
  harmless : ∀ before after, events = before ++ after → 0xFFF < (m.final before).index.toNat →
    (m.final before).Harmless after

/-! ### One step -/

theorem addend_of_fetches {x : Fin 16} (h : m.Fetches (.register .addToIndex x)) :
    m.addend = (m.registers.get x).toNat := by
  obtain ⟨word, hword, hdenotes⟩ := h
  have hregister : m.registers[(x : Nat)]? = some (m.registers.get x) := Vector.getElem?_eq_getElem x.isLt
  rw [addend, hword]
  dsimp only
  rw [hdenotes.decode?]
  dsimp only
  rw [hregister]
  rfl

theorem addend_eq_zero (h : ∀ x, ¬ m.Fetches (.register .addToIndex x)) : m.addend = 0 := by
  rw [addend]
  split
  · next word hword =>
    split
    · next x hdecode => exact absurd (fetches_of_decode? hword hdecode) (h x)
    · rfl
  · rfl

theorem added_of_effect {x : Fin 16} {word : UInt16} {flow : Flow} {notice : Notice} {m₁ : Machine}
    (h : m.Fetches (.register .addToIndex x))
    (heffect : Effect (m.fetched word) (.register .addToIndex x) flow notice m₁) :
    m.Added x (m₁.continued flow) := by
  cases heffect with
  | addToIndex hx =>
    have hsum : indexSum (m.fetched word) x hx = min 0xFFFF (m.index.toNat + (m.registers.get x).toNat) :=
      Nat.min_comm _ _
    have hlimit : Memory.highestOperand = 0xFFF := rfl
    have hindex : (UInt16.ofNat (indexSum (m.fetched word) x hx)).toNat =
        min 0xFFFF (m.index.toNat + (m.registers.get x).toNat) := by
      rw [hsum]
      exact Nat.mod_eq_of_lt (by omega)
    refine ⟨addend_of_fetches h, hindex, fun hhigh => ?_, fun hlow => ?_, fun k hk => ?_⟩
    · have hbeyond : Memory.highestOperand < indexSum (m.fetched word) x hx := by
        rw [hlimit, hsum, ← hindex]
        exact hhigh
      show (if _ then _ else _ : Registers).get 15 = 1
      rw [if_pos hbeyond]
      exact Registers.get_withFlag_self _ _
    · have hwithin : ¬ Memory.highestOperand < indexSum (m.fetched word) x hx := by
        rw [hlimit, hsum, ← hindex]
        exact Nat.not_lt_of_le hlow
      show (if _ then _ else _ : Registers).get 15 = _
      rw [if_neg hwithin]
      rfl
    · show (if _ then _ else _ : Registers).get k = _
      split
      · exact Registers.get_withFlag_of_ne _ _ hk
      · rfl

/-- Adding a register to the index register never fails. -/
theorem added_next (hscreen : m.screen.WellFormed) {x : Fin 16}
    (h : m.Fetches (.register .addToIndex x)) : m.Added x m.next := by
  refine next_cases (answers_of_screen hscreen) (fun notice m' hstep => ?_) (fun e m' hstop => ?_)
  · obtain ⟨word, flow, m₁, heffect, rfl⟩ := h.effect hstep
    exact added_of_effect h heffect
  · obtain ⟨word, hfailure⟩ := h.failure hstop
    cases hfailure with
    | block hlen hblock => cases hlen

/-- A step that does not point the index register anywhere adds its addend to it. -/
theorem next_index (hscreen : m.screen.WellFormed) (h : ¬ m.Repoints) :
    m.next.index.toNat = min 0xFFFF (m.index.toNat + m.addend) := by
  by_cases hadds : ∃ x, m.Fetches (.register .addToIndex x)
  · obtain ⟨x, hnext⟩ := hadds
    have hx : x < 16 := by
      obtain ⟨word, _, hdenotes⟩ := hnext
      exact Instruction.inRange_of_decode? hdenotes.decode?
    have hadded := @added_next m hscreen ⟨x, hx⟩ hnext
    rw [hadded.index, hadded.addend]
  · have hsame : m.next.index = m.index := by
      refine (next_inFrame hscreen).same .index fun instruction hnext hmem => ?_
      rcases exists_of_index_mem_writeSet hmem with ⟨nnn, rfl⟩ | ⟨x, rfl⟩ | ⟨x, rfl⟩
      · exact h (.inl ⟨nnn, hnext⟩)
      · exact h (.inr ⟨x, hnext⟩)
      · exact hadds ⟨x, hnext⟩
    have hword : m.index.toNat < 0x10000 := m.index.toNat_lt
    rw [hsame, addend_eq_zero fun x hnext => hadds ⟨x, hnext⟩]
    omega

/-- A block of bytes that begins beyond memory is an error. -/
theorem block_fails (hmemory : m.memory.size = Memory.capacity) (hscreen : m.screen.WellFormed)
    (hhigh : 0xFFF < m.index.toNat) {instruction : Instruction} {len : Nat}
    (hnext : m.Fetches instruction) (hlen : instruction.blockLength? = some len) (hpos : 1 ≤ len) :
    ∃ m', step.run m = .error (.error (.memory (.outOfBounds m.index.toNat Memory.capacity))) m' := by
  have hcapacity : Memory.capacity = 0x1000 := rfl
  rcases (answers_of_screen hscreen).ok_or_error with ⟨notice, m', hrun⟩ | ⟨e, m', hrun⟩
  · obtain ⟨word, flow, m₁, heffect, _⟩ := hnext.effect (stepped_of_run hrun)
    have hfits : m.index.toNat + len ≤ m.memory.size := heffect.block_le hlen
    omega
  · obtain ⟨word, hfailure⟩ := hnext.failure (stopped_of_run hrun)
    cases hfailure with
    | block hlen' hblock =>
      have hcause := (Memory.checkBlock_eq_error_iff.mp hblock).2
      have hmax : max m.index.toNat Memory.capacity = m.index.toNat := by omega
      have hsize : (m.fetched word).memory.size = Memory.capacity := hmemory
      have hindex : (m.fetched word).index = m.index := rfl
      rw [hsize, hindex, hmax] at hcause
      rw [hrun, hcause]
      exact ⟨_, rfl⟩
    | _ => cases hlen

/-- Beyond memory nothing is written. -/
theorem next_memory (hmemory : m.memory.size = Memory.capacity) (hscreen : m.screen.WellFormed)
    (hhigh : 0xFFF < m.index.toNat) : m.next.memory = m.memory := by
  have hcapacity : Memory.capacity = 0x1000 := rfl
  refine next_cases (P := fun u => u.memory = m.memory) (answers_of_screen hscreen)
    (fun notice m' hstep => ?_) (fun e m' hstop => ?_)
  · cases hstep with
    | unknown hword hdecode => rfl
    | @executed word instruction flow notice m₁ hword hdecode heffect =>
      have hblock : ∀ len, instruction.blockLength? = some len → ¬ 1 ≤ len := by
        intro len hlen hpos
        have hfits : m.index.toNat + len ≤ m.memory.size := heffect.block_le hlen
        omega
      cases heffect with
      | storeDigits hx _ => exact absurd (by decide) (hblock 3 rfl)
      | @storeRegisters x hx _ => exact absurd (Nat.le_add_left 1 x) (hblock (x + 1) rfl)
      | _ => rfl
  · cases hstop with
    | fetch hword => rfl
    | execute hword hdecode hfailure =>
      rw [hfailure.frame]
      rfl

/-! ### Many steps -/

theorem influence_index (m : Machine) (i : Influence) : (m.influence i).index = m.index := by
  cases i <;> rfl

/-- The index register ends at the sum of what was added, unless this is beyond the highest word. -/
theorem final_index (hscreen : m.screen.WellFormed) (h : ∀ b ∈ m.starts events, ¬ b.Repoints) :
    (m.final events).index.toNat =
      min 0xFFFF (m.index.toNat + ((m.starts events).map addend).sum) := by
  induction events generalizing m with
  | nil =>
    have hword : m.index.toNat < 0x10000 := m.index.toNat_lt
    show m.index.toNat = min 0xFFFF (m.index.toNat + 0)
    omega
  | cons event rest ih =>
    cases event with
    | step =>
      have hfirst := next_index hscreen (h m List.mem_cons_self)
      have hrest := ih (m := m.next) (screen_wellFormed_of_run hscreen)
        fun b hb => h b (List.mem_cons_of_mem _ hb)
      rw [starts, List.map_cons, List.sum_cons, final, hrest, hfirst]
      omega
    | outside i =>
      have hrest := ih (influence_screen m i ▸ hscreen) h
      rw [influence_index] at hrest
      exact hrest

/-- The index register lies beyond memory, which is the given one. -/
structure Beyond (memory : Memory) (m : Machine) : Prop where
  memory_eq : m.memory = memory
  high : 0xFFF < m.index.toNat
  screen : m.screen.WellFormed

theorem Beyond.next {memory : Memory} (hsize : memory.size = Memory.capacity)
    (h : m.Beyond memory) (hstays : ¬ m.Repoints) : m.next.Beyond memory := by
  have hmemory : m.memory.size = Memory.capacity := h.memory_eq ▸ hsize
  have hhigh := h.high
  refine ⟨(next_memory hmemory h.screen hhigh).trans h.memory_eq, ?_, screen_wellFormed_of_run h.screen⟩
  rw [next_index h.screen hstays]
  omega

/-- Where the index register lies beyond memory, it stays there, and does no harm. -/
theorem harmless_of_high (hmemory : m.memory.size = Memory.capacity) (hscreen : m.screen.WellFormed)
    (hhigh : 0xFFF < m.index.toNat) (h : ∀ b ∈ m.starts events, ¬ b.Repoints) :
    m.Harmless events := by
  obtain ⟨hfinal, hstarts⟩ := history_keeps_of (P := Beyond m.memory) (Q := fun b => ¬ b.Repoints)
    (fun u hu hstays => hu.next hmemory hstays)
    (fun u i hu => ⟨by cases i <;> exact hu.memory_eq, by rw [influence_index]; exact hu.high,
      by rw [influence_screen]; exact hu.screen⟩)
    ⟨rfl, hhigh, hscreen⟩ h
  refine ⟨hfinal.memory_eq, fun b hb => ?_, fun b hb instruction len hnext hlen hpos => ?_⟩
  · have hbeyond := hstarts b hb
    exact next_memory (hbeyond.memory_eq ▸ hmemory) hbeyond.screen hbeyond.high
  · have hbeyond := hstarts b hb
    exact block_fails (hbeyond.memory_eq ▸ hmemory) hbeyond.screen hbeyond.high hnext hlen hpos

/-- If no step points the index register anywhere, all additions are in it, up to the highest word; and
beyond memory it does no harm. -/
theorem index_saturates (hm : m.WellFormed) (h : ∀ b ∈ m.starts events, ¬ b.Repoints) :
    m.Saturates events := by
  have hcut : ∀ before after, events = before ++ after →
      ∀ b ∈ (m.final before).starts after, ¬ b.Repoints := by
    rintro before after rfl b hb
    refine h b ?_
    rw [starts_append]
    exact List.mem_append_right _ hb
  refine ⟨final_index hm.screen h, ?_, ?_, ?_⟩
  · rintro before between after rfl
    have hbetween : ∀ b ∈ (m.final before).starts between, ¬ b.Repoints := by
      intro b hb
      refine hcut before (between ++ after) (List.append_assoc _ _ _) b ?_
      rw [starts_append]
      exact List.mem_append_left _ hb
    have hword : (m.final before).index.toNat < 0x10000 := UInt16.toNat_lt _
    rw [final_append, final_index (screen_wellFormed_final hm.screen before) hbetween]
    omega
  · intro b hb x hnext
    exact added_next (screen_wellFormed_of_mem_starts hm.screen hb) hnext
  · intro before after hevents hhigh
    have hsize := (unchanged_final hm.screen before).memory_size.trans hm.memory_size
    exact harmless_of_high hsize (screen_wellFormed_final hm.screen before) hhigh
      (hcut before after hevents)

/-- A machine that is about to add the flag to the index register, and then to store digits. -/
def climber : Machine :=
  { settings := {}, memory := Memory.blank.write 0x200 [0xFF, 0x1E, 0xF0, 0x33], index := 0xF80
    registers := Registers.cleared.withFlag 0x90, timers := {}, screen := .blank 1 1
    keypad := {}, random := .cycle #[] }

/-- The sum lies beyond memory, so the flag is set, and no digits are stored. -/
theorem index_saturates_climber : climber.WellFormed ∧
    ∃ b, climber.starts [.step, .step] = [climber, b] ∧
      b.index.toNat = 0x1010 ∧ b.registers.get 15 = 1 ∧
      (∃ b', step.run b = .error (.error (.memory (.outOfBounds b.index.toNat 0x1000))) b') ∧
      (climber.final [.step, .step]).memory = climber.memory := by
  have hwell : climber.WellFormed :=
    ⟨(Memory.size_write _ _ _).trans Memory.size_blank, by decide, Screen.wellFormed_blank 1 1⟩
  have hbyte : ∀ k < 4, climber.memory.bytes[0x200 + k]? =
      ([0xFF, 0x1E, 0xF0, 0x33] : List UInt8)[k]? := fun k hk =>
    Memory.getElem?_write_of_inside hk (Memory.size_blank ▸ by decide)
  have hword : climber.memory.wordAt 0x200 = .ok 0xFF1E :=
    Memory.wordAt_of_getElem? (hbyte 0 (by decide)) (hbyte 1 (by decide))
  have hword' : climber.memory.wordAt 0x202 = .ok 0xF033 :=
    Memory.wordAt_of_getElem? (hbyte 2 (by decide)) (hbyte 3 (by decide))
  have hadds : climber.Fetches (.register .addToIndex 15) := fetches_of_decode? hword (by decide)
  have hrun : step.run climber = .ok .quiet
      { climber.fetched 0xFF1E with index := 0x1010, registers := climber.registers.withFlag 1 } :=
    (run_instruction hword (hadds.decode?_eq hword)).trans rfl
  obtain ⟨b, hb⟩ : ∃ b, b = climber.next := ⟨_, rfl⟩
  have hnext : b = _ := hb.trans (congrArg StepResult.machine hrun)
  have hstarts : climber.starts [.step, .step] = [climber, b] := by
    rw [hb]
    rfl
  have hstores : b.Fetches (.register .storeDigits 0) := by
    have hword'' : b.memory.wordAt b.pc.toNat = .ok 0xF033 := by
      rw [hnext]
      exact hword'
    exact fetches_of_decode? hword'' (by decide)
  have hstays : ∀ u ∈ climber.starts [.step, .step], ¬ u.Repoints := by
    intro u hu hrepoints
    have hfetches : u.Fetches (.register .addToIndex 15) ∨ u.Fetches (.register .storeDigits 0) := by
      rw [hstarts] at hu
      rcases List.mem_cons.mp hu with rfl | hu
      · exact .inl hadds
      · exact .inr (List.mem_singleton.mp hu ▸ hstores)
    rcases hrepoints with ⟨nnn, h⟩ | ⟨x, h⟩ <;> rcases hfetches with h' | h' <;>
      cases h.unique h'
  have hsaturates : climber.Saturates [.step, .step] := index_saturates hwell hstays
  have hadded := hsaturates.added climber List.mem_cons_self 15 hadds
  rw [← hb] at hadded
  have hindex : b.index.toNat = 0x1010 := hadded.index
  have hharmless : b.Harmless [.step] := by
    have hlater := hsaturates.harmless [.step] [.step] rfl
    rw [final, final, ← hb] at hlater
    exact hlater (hindex ▸ by decide)
  have hfinal : climber.final [.step, .step] = b.final [.step] := by rw [final, hb]
  refine ⟨hwell, b, hstarts, hindex, hadded.set_flag (hindex ▸ by decide), ?_, ?_⟩
  · exact hharmless.fails b List.mem_cons_self (.register .storeDigits 0) 3 hstores rfl (by decide)
  · rw [hfinal, hharmless.memory, hnext]
    rfl

end Machine

end Chip8
