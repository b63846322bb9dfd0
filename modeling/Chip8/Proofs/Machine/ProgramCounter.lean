import Chip8.Proofs.Keypad.Holding
import Chip8.Proofs.Machine.Errors
import Chip8.Proofs.Machine.Soundness
import Chip8.Proofs.Memory.Blocks

/-!
# Where execution goes on

The word at the program counter, and the machine before the step, determine where execution goes on.
`Machine.Skips m word` lists the words that skip the following one, each with its condition, and
`Machine.Continues m word m'` gives the program counter for every word: the targets of jumps, calls and
returns, four bytes on after a skip, and two bytes on after every other word, whether it is an
instruction or not. `Machine.continues_of_run` says that a step that goes through does just that.

The counters are compared as numbers. Inside memory nothing wraps, and a sum that lies beyond it is
where the next fetch fails.
-/

namespace Chip8

namespace Machine

open Memory (bytes_of_wordAt)

/-- The register that the second digit of a word names. -/
def registerX (m : Machine) (word : UInt16) : UInt8 :=
  m.registers.get ⟨Word.x word, Word.x_lt word⟩

/-- The register that the third digit of a word names. -/
def registerY (m : Machine) (word : UInt16) : UInt8 :=
  m.registers.get ⟨Word.y word, Word.y_lt word⟩

/-- The words that skip the following one. -/
inductive Skips (m : Machine) (word : UInt16) : Prop
  | equal (hkind : Word.kind word = 0x3) (h : m.registerX word = Word.nn word)
  | notEqual (hkind : Word.kind word = 0x4) (h : m.registerX word ≠ Word.nn word)
  | same (hkind : Word.kind word = 0x5) (hn : Word.n word = 0)
      (h : m.registerX word = m.registerY word)
  | different (hkind : Word.kind word = 0x9) (hn : Word.n word = 0)
      (h : m.registerX word ≠ m.registerY word)
  | held (hkind : Word.kind word = 0xE) (hnn : Word.nn word = 0x9E)
      (h : m.keypad.held.HeldAt m.keypad.now (m.registerX word))
  | notHeld (hkind : Word.kind word = 0xE) (hnn : Word.nn word = 0xA1)
      (h : ¬ m.keypad.held.HeldAt m.keypad.now (m.registerX word))

/-- The words that say themselves, or let the call stack say, where execution goes on. -/
def Branches (word : UInt16) : Prop :=
  Word.kind word = 0x1 ∨ Word.kind word = 0x2 ∨ Word.kind word = 0xB ∨ word = 0x00EE

/-- Where execution goes on after a word, and what a call and a return do to the stack. -/
structure Continues (m : Machine) (word : UInt16) (m' : Machine) : Prop where
  jump : Word.kind word = 0x1 → m'.pc.toNat = word.toNat % 0x1000
  call : Word.kind word = 0x2 → m'.pc.toNat = word.toNat % 0x1000 ∧
    ∃ back, back.toNat = m.pc.toNat + 2 ∧ m'.stack.addresses = back :: m.stack.addresses
  ret : word = 0x00EE → m.stack.addresses = m'.pc :: m'.stack.addresses
  jumpPlus : Word.kind word = 0xB →
    m'.pc.toNat = word.toNat % 0x1000 + (m.registers.get 0).toNat
  skip : m.Skips word → m'.pc.toNat = m.pc.toNat + 4
  next : ¬ Branches word → ¬ m.Skips word → m'.pc.toNat = m.pc.toNat + 2

variable {m m' : Machine} {word : UInt16} {notice : Notice} {instruction : Instruction}

open Exec

/-! ### What a step does at its word -/

/-- A step carries out the instruction that its word stands for. -/
theorem Stepped.effect (h : Stepped m notice m') (hword : m.memory.wordAt m.pc.toNat = .ok word)
    (hdenotes : Instruction.Denotes word instruction) :
    ∃ flow m₁, Effect (m.fetched word) instruction flow notice m₁ ∧
      m'.stack = m₁.stack ∧ m'.pc = flow.apply (m.pc + 2) := by
  cases h with
  | unknown hword' hdecode =>
    cases hword'.symm.trans hword
    rw [hdenotes.decode?] at hdecode
    cases hdecode
  | @executed _ _ flow _ m₁ hword' hdecode heffect =>
    cases hword'.symm.trans hword
    cases Option.some.inj (hdecode.symm.trans hdenotes.decode?)
    refine ⟨flow, m₁, heffect, rfl, ?_⟩
    show flow.apply m₁.pc = flow.apply (m.pc + 2)
    rw [heffect.pc_eq]
    rfl

/-! ### Skips and branches -/

theorem skipIf_eq_skip_iff (condition : Bool) :
    Flow.skipIf condition = .skip ↔ condition = true := by
  cases condition with
  | true => simp [Flow.skipIf]
  | false => simp [Flow.skipIf]

theorem contains_iff_heldAt {k : Keypad} {key : UInt8} :
    (k.contains key).2 = true ↔ k.held.HeldAt k.now key :=
  k.held.has_evict_iff

theorem not_contains_iff {k : Keypad} {key : UInt8} :
    (!(k.contains key).2) = true ↔ ¬ k.held.HeldAt k.now key := by
  rw [← contains_iff_heldAt, Bool.not_eq_true', Bool.not_eq_true]

variable {flow : Flow} {m₁ : Machine}

theorem skips_of_effect (hdenotes : Instruction.Denotes word instruction)
    (heffect : Effect (m.fetched word) instruction flow notice m₁) (hskip : flow = .skip) :
    m.Skips word := by
  cases heffect with
  | skipIfEqual hx =>
    cases hdenotes with
    | skipIfEqual hkind => exact .equal hkind (eq_of_beq ((skipIf_eq_skip_iff _).mp hskip))
  | skipIfNotEqual hx =>
    cases hdenotes with
    | skipIfNotEqual hkind => exact .notEqual hkind (bne_iff_ne.mp ((skipIf_eq_skip_iff _).mp hskip))
  | skipIfSame hx hy =>
    cases hdenotes with
    | skipIfSame hkind hn => exact .same hkind hn (eq_of_beq ((skipIf_eq_skip_iff _).mp hskip))
  | skipIfDifferent hx hy =>
    cases hdenotes with
    | skipIfDifferent hkind hn =>
      exact .different hkind hn (bne_iff_ne.mp ((skipIf_eq_skip_iff _).mp hskip))
  | skipIfHeld hx =>
    cases hdenotes with
    | skipIfHeld hkind hnn =>
      exact .held hkind hnn (contains_iff_heldAt.mp ((skipIf_eq_skip_iff _).mp hskip))
  | skipIfNotHeld hx =>
    cases hdenotes with
    | skipIfNotHeld hkind hnn =>
      exact .notHeld hkind hnn (not_contains_iff.mp ((skipIf_eq_skip_iff _).mp hskip))
  | _ => cases hskip

/-- A word of the list stands for an instruction that asks for a skip. -/
theorem Skips.denotes (h : m.Skips word) : ∃ instruction, Instruction.Denotes word instruction ∧
    ∀ flow notice m₁, Effect (m.fetched word) instruction flow notice m₁ → flow = .skip := by
  cases h with
  | equal hkind h =>
    refine ⟨_, .skipIfEqual hkind, ?_⟩
    intro flow notice m₁ heffect
    cases heffect
    exact (skipIf_eq_skip_iff _).mpr (beq_iff_eq.mpr h)
  | notEqual hkind h =>
    refine ⟨_, .skipIfNotEqual hkind, ?_⟩
    intro flow notice m₁ heffect
    cases heffect
    exact (skipIf_eq_skip_iff _).mpr (bne_iff_ne.mpr h)
  | same hkind hn h =>
    refine ⟨_, .skipIfSame hkind hn, ?_⟩
    intro flow notice m₁ heffect
    cases heffect
    exact (skipIf_eq_skip_iff _).mpr (beq_iff_eq.mpr h)
  | different hkind hn h =>
    refine ⟨_, .skipIfDifferent hkind hn, ?_⟩
    intro flow notice m₁ heffect
    cases heffect
    exact (skipIf_eq_skip_iff _).mpr (bne_iff_ne.mpr h)
  | held hkind hnn h =>
    refine ⟨_, .skipIfHeld hkind hnn, ?_⟩
    intro flow notice m₁ heffect
    cases heffect
    exact (skipIf_eq_skip_iff _).mpr (contains_iff_heldAt.mpr h)
  | notHeld hkind hnn h =>
    refine ⟨_, .skipIfNotHeld hkind hnn, ?_⟩
    intro flow notice m₁ heffect
    cases heffect
    exact (skipIf_eq_skip_iff _).mpr (not_contains_iff.mpr h)

theorem branches_of_effect (hdenotes : Instruction.Denotes word instruction)
    (heffect : Effect (m.fetched word) instruction flow notice m₁) {target : UInt16}
    (hjump : flow = .jump target) : Branches word := by
  cases heffect with
  | ret hpop =>
    cases hdenotes with
    | ret h => exact .inr (.inr (.inr h))
  | jump =>
    cases hdenotes with
    | jump hkind => exact .inl hkind
  | call hpush =>
    cases hdenotes with
    | call hkind => exact .inr (.inl hkind)
  | jumpPlus =>
    cases hdenotes with
    | jumpPlus hkind => exact .inr (.inr (.inl hkind))
  | skipIfEqual | skipIfNotEqual | skipIfSame | skipIfDifferent | skipIfHeld | skipIfNotHeld =>
    exact absurd hjump (skipIf_ne_jump _ target)
  | _ => cases hjump

/-- Every other word is passed over or carried out, and execution goes on behind it. -/
theorem Stepped.pc_eq (h : Stepped m notice m') (hword : m.memory.wordAt m.pc.toNat = .ok word)
    (hbranches : ¬ Branches word) (hskips : ¬ m.Skips word) : m'.pc = m.pc + 2 := by
  cases hdecode : Instruction.decode? word with
  | none =>
    cases h with
    | unknown hword' hdecode' => rfl
    | executed hword' hdecode' heffect =>
      cases hword'.symm.trans hword
      cases hdecode.symm.trans hdecode'
  | some instruction =>
    have hdenotes := Instruction.denotes_of_decode? hdecode
    obtain ⟨flow, m₁, heffect, _, hpc⟩ := h.effect hword hdenotes
    cases flow with
    | next => exact hpc
    | skip => exact absurd (skips_of_effect hdenotes heffect rfl) hskips
    | jump target => exact absurd (branches_of_effect hdenotes heffect rfl) hbranches

/-! ### Every word -/

theorem continues_of_stepped (hmemory : m.memory.size = Memory.capacity) (h : Stepped m notice m')
    (hword : m.memory.wordAt m.pc.toNat = .ok word) : m.Continues word m' := by
  obtain ⟨hpc, hinside⟩ := toNat_pc_add_two hmemory hword
  have hcapacity : Memory.capacity = 0x1000 := rfl
  refine ⟨?_, ?_, ?_, ?_, ?_, ?_⟩
  · intro hkind
    obtain ⟨flow, m₁, heffect, _, hflow⟩ := h.effect hword (.jump hkind)
    cases heffect
    rw [hflow, ← Word.toNat_nnn]
    rfl
  · intro hkind
    obtain ⟨flow, m₁, heffect, hstack, hflow⟩ := h.effect hword (.call hkind)
    cases heffect with
    | call hpush =>
      refine ⟨?_, m.pc + 2, hpc, ?_⟩
      · rw [hflow, ← Word.toNat_nnn]
        rfl
      · rw [hstack]
        exact CallStack.addresses_of_push hpush
  · intro hret
    obtain ⟨flow, m₁, heffect, hstack, hflow⟩ := h.effect hword (.ret hret)
    cases heffect with
    | ret hpop =>
      rw [hstack, hflow]
      exact CallStack.addresses_of_pop hpop
  · intro hkind
    obtain ⟨flow, m₁, heffect, _, hflow⟩ := h.effect hword (.jumpPlus hkind)
    cases heffect
    rw [hflow, ← Word.toNat_nnn]
    exact jumpPlus_toNat (Word.nnn_lt word) (m.registers.get 0)
  · intro hskips
    obtain ⟨instruction, hdenotes, hskip⟩ := hskips.denotes
    obtain ⟨flow, m₁, heffect, _, hflow⟩ := h.effect hword hdenotes
    rw [hflow, hskip flow notice m₁ heffect]
    show (m.pc + 2 + 2).toNat = m.pc.toNat + 4
    rw [Word.toNat_add_two (by omega), hpc]
  · intro hbranches hskips
    rw [h.pc_eq hword hbranches hskips, hpc]

/-- The word at the program counter determines where a step that goes through goes on. -/
theorem continues_of_run (hm : m.WellFormed) (h : step.run m = .ok notice m') :
    ∃ word high low, m.memory.bytes[m.pc.toNat]? = some high ∧
      m.memory.bytes[m.pc.toNat + 1]? = some low ∧
      word.toNat = 256 * high.toNat + low.toNat ∧ m.Continues word m' := by
  have hstep := stepped_of_run h
  obtain ⟨word, hword⟩ : ∃ word, m.memory.wordAt m.pc.toNat = .ok word := by
    cases hstep with
    | unknown hword hdecode => exact ⟨_, hword⟩
    | executed hword hdecode heffect => exact ⟨_, hword⟩
  obtain ⟨high, low, hhigh, hlow, hvalue⟩ := bytes_of_wordAt hword
  exact ⟨word, high, low, hhigh, hlow, hvalue, continues_of_stepped hm.memory_size hstep hword⟩

/-- A machine whose first word skips the second one, because register 0 is zero. -/
def stile : Machine :=
  { settings := {}, memory := Memory.blank.write 0x200 [0x30, 0x00], timers := {}
    screen := .blank 1 1, keypad := {}, random := .cycle #[] }

theorem continues_of_run_stile : stile.WellFormed ∧ ∃ m', step.run stile = .ok .quiet m' ∧
    ∃ word high low, stile.memory.bytes[stile.pc.toNat]? = some high ∧
      stile.memory.bytes[stile.pc.toNat + 1]? = some low ∧
      word.toNat = 256 * high.toNat + low.toNat ∧ stile.Continues word m' := by
  have hhigh : stile.memory.bytes[0x200]? = some 0x30 := by decide +kernel
  have hlow : stile.memory.bytes[0x201]? = some 0x00 := by decide +kernel
  have hword : stile.memory.wordAt stile.pc.toNat = .ok 0x3000 :=
    Memory.wordAt_of_getElem? hhigh hlow
  have hwell : stile.WellFormed :=
    ⟨(Memory.size_write _ _ _).trans Memory.size_blank, by decide, Screen.wellFormed_blank 1 1⟩
  have hdecode : Instruction.decode? 0x3000 = some (.skipIfEqual 0 0) := by decide
  have hrun : step.run stile = .ok .quiet ((stile.fetched 0x3000).continued .skip) :=
    (run_instruction hword hdecode).trans rfl
  exact ⟨hwell, _, hrun, continues_of_run hwell hrun⟩

end Machine

end Chip8
