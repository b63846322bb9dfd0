import Chip8.Proofs.Machine.Glyphs
import Chip8.Proofs.Machine.Soundness
import Chip8.Proofs.Memory.Slices

/-!
# Fetching a program

A new machine has zeros from the program start on, and a program that is loaded takes the place of the
first of them (`Machine.HoldsProgram`). One fetch after the other reads this back, a word at a time and the
more significant byte first: 1792 words, the last of which ends with memory. From then on every fetch
fails, and leaves the machine as it is.

* `Machine.Advanced` is what all fetches keep: nothing but the fetched word and the program counter has
  changed. `Machine.advanced_afterFetches` says so after any number of them.
* `Machine.fetches_read_back` puts this together with what holds of a word at any pointer
  (`Memory.ReadsWord`).
-/

namespace Chip8

/-- What reading the word at a pointer of 64 bits comes to. -/
structure Memory.ReadsWord (m : Memory) (pointer : UInt64) : Prop where
  /-- There is a word if its two bytes are inside. -/
  ok_iff : (∃ word, m.wordAt pointer.toNat = .ok word) ↔ pointer.toNat + 2 ≤ m.size
  /-- The more significant byte comes first. -/
  joins : ∀ word, m.wordAt pointer.toNat = .ok word →
    ∃ high low, m.bytes[pointer.toNat]? = some high ∧ m.bytes[pointer.toNat + 1]? = some low ∧
      word.toNat = 256 * high.toNat + low.toNat
  refused : m.size < pointer.toNat + 2 →
    m.wordAt pointer.toNat = .error (.outside pointer.toNat m.size)
  /-- The end of the slice is computed with 64 bits, and that makes no difference. -/
  slice : m.size < 0x10000000000000000 → m.readWord pointer = m.wordAt pointer.toNat

theorem Memory.readsWord (m : Memory) (pointer : UInt64) : m.ReadsWord pointer where
  ok_iff := m.wordAt_isOk_iff pointer.toNat
  joins _ := wordAt_eq_ok_iff.mp
  refused h := wordAt_eq_error_iff.mpr ⟨h, rfl⟩
  slice hsize := readWord_eq hsize pointer

namespace Machine

/-- The machine after a fetch, whether there was a word or not. -/
def afterFetch (m : Machine) : Machine :=
  match fetch.run m with
  | .ok _ m' | .error _ m' => m'

/-- The machine after so many fetches in succession. -/
def afterFetches (m : Machine) : Nat → Machine
  | 0 => m
  | k + 1 => (m.afterFetches k).afterFetch

/-- A program with zeros behind it, up to the end of a memory of 4096 bytes. -/
def paddedProgram (program : List UInt8) : List UInt8 :=
  program ++ List.replicate (3584 - program.length) 0

/-- From the program start on, memory has the bytes of the program and then zeros. -/
structure HoldsProgram (m : Machine) (program : List UInt8) : Prop where
  size : m.memory.size = 4096
  byte : ∀ k < 3584, m.memory.bytes[0x200 + k]? = (paddedProgram program)[k]?

/-- Of a machine only the word fetched last and the program counter are different, and the counter is
`k` words further on than the program start. -/
structure Advanced (m : Machine) (k : Nat) (m' : Machine) : Prop where
  frame : m' = { m with opcode := m'.opcode, pc := m'.pc }
  pc_eq : m'.pc.toNat = 0x200 + 2 * k

/-- What one fetch after the other comes to. -/
structure ReadsBack (m : Machine) (program : List UInt8) : Prop where
  /-- Fetch number `k`, counted from zero, returns word number `k`. -/
  word : ∀ k < 1792, ∃ word high low,
    fetch.run (m.afterFetches k) = .ok word (m.afterFetches (k + 1)) ∧
    (paddedProgram program)[2 * k]? = some high ∧ (paddedProgram program)[2 * k + 1]? = some low ∧
    word.toNat = 256 * high.toNat + low.toNat
  advanced : ∀ k ≤ 1792, m.Advanced k (m.afterFetches k)
  /-- Behind the last word every fetch fails, and changes nothing. -/
  ended : ∀ k ≥ 1792, fetch.run (m.afterFetches k) =
    .error (.error (.word (.outside 4096 4096))) (m.afterFetches k)

variable {m m' : Machine} {settings : Settings} {keypad : Keypad} {random : RandomSource}
  {program : List UInt8} {k : Nat}

/-! ### A program in a new machine -/

theorem length_paddedProgram (hfits : program.length ≤ 3584) : (paddedProgram program).length = 3584 := by
  rw [paddedProgram, List.length_append, List.length_replicate]
  omega

/-- The font of a new machine ends before the program start, and behind it there are zeros. -/
theorem getElem?_of_create (hcreate : create settings keypad random = .ok m) {address : Nat}
    (hstart : 0x200 ≤ address) (hend : address < 4096) : m.memory.bytes[address]? = some 0 := by
  have hlen : Font.builtIn.bytes.length = 80 := Font.builtIn.length_bytes
  have hbehind : Font.base + Font.builtIn.bytes.length ≤ address := by
    rw [Font.base]
    omega
  rw [(eq_of_create hcreate).2]
  show (Memory.blank.write Font.base Font.builtIn.bytes).bytes[address]? = some 0
  rw [Memory.getElem?_write_of_outside _ (.inr hbehind), Memory.blank, Array.getElem?_replicate]
  exact if_pos hend

/-- A program that is loaded into a new machine has the zeros of that machine behind it. -/
theorem exists_holdsProgram (hcreate : create settings keypad random = .ok m)
    (hfits : program.length ≤ 3584) :
    ∃ loaded, m.loadProgram program = .ok loaded ∧ loaded.pc = Memory.programStart ∧
      loaded.HoldsProgram program := by
  have hsize : m.memory.size = 4096 := (sound_of_create hcreate).memory_size
  have hpc : m.pc = Memory.programStart := by rw [(eq_of_create hcreate).2]
  have hstart : Memory.programStart.toNat = 0x200 := rfl
  refine ⟨_, loadProgram_of_le (by rw [programSpace_eq hsize]; exact hfits), hpc, ?_, ?_⟩
  · exact (Memory.size_write _ _ _).trans hsize
  · intro k hk
    show (m.memory.write Memory.programStart.toNat program).bytes[0x200 + k]? = _
    rw [Memory.getElem?_write (by omega), hstart, paddedProgram]
    by_cases hcode : k < program.length
    · rw [if_pos (by omega), Nat.add_sub_cancel_left, List.getElem?_append_left hcode]
    · rw [if_neg (by omega), getElem?_of_create hcreate (by omega) (by omega),
        List.getElem?_append_right (Nat.le_of_not_lt hcode), List.getElem?_replicate,
        if_pos (by omega)]

/-! ### One fetch -/

theorem afterFetch_of_ok {word : UInt16} (h : fetch.run m = .ok word m') : m.afterFetch = m' := by
  rw [afterFetch, h]

theorem afterFetch_of_error {halt : Halt} (h : fetch.run m = .error halt m') :
    m.afterFetch = m' := by
  rw [afterFetch, h]

/-- A machine that has advanced by less than all words can fetch the next one. -/
theorem Advanced.exists_word (h : m.Advanced k m') (hprogram : m.HoldsProgram program)
    (hfits : program.length ≤ 3584) (hk : k < 1792) :
    ∃ word high low, fetch.run m' = .ok word (m'.fetched word) ∧
      (paddedProgram program)[2 * k]? = some high ∧ (paddedProgram program)[2 * k + 1]? = some low ∧
      word.toNat = 256 * high.toNat + low.toNat := by
  have hlen := length_paddedProgram hfits
  have hmemory : m'.memory = m.memory := by rw [h.frame]
  have hhigh : (paddedProgram program)[2 * k]? = some (paddedProgram program)[2 * k] :=
    List.getElem?_eq_getElem (by omega)
  have hlow : (paddedProgram program)[2 * k + 1]? = some (paddedProgram program)[2 * k + 1] :=
    List.getElem?_eq_getElem (by omega)
  have hword := Memory.wordAt_of_getElem? ((hprogram.byte (2 * k) (by omega)).trans hhigh)
    ((hprogram.byte (2 * k + 1) (by omega)).trans hlow)
  rw [← hmemory, ← h.pc_eq] at hword
  exact ⟨_, _, _, run_fetch hword, hhigh, hlow, Word.toNat_join _ _⟩

/-- A fetch moves the program counter on by a word, and changes nothing else but the last word. -/
theorem Advanced.fetched (h : m.Advanced k m') (hk : k < 1792) (word : UInt16) :
    m.Advanced (k + 1) (m'.fetched word) := by
  have hpc := h.pc_eq
  have hsum : (m'.pc + 2).toNat = m'.pc.toNat + 2 := Word.toNat_add_two (by omega)
  constructor
  · rw [h.frame]
    rfl
  · show (m'.pc + 2).toNat = 0x200 + 2 * (k + 1)
    omega

/-! ### One fetch after the other -/

/-- Nothing but the last word and the program counter changes as long as there are words. -/
theorem advanced_afterFetches (hprogram : m.HoldsProgram program) (hfits : program.length ≤ 3584)
    (hpc : m.pc = Memory.programStart) (hk : k ≤ 1792) : m.Advanced k (m.afterFetches k) := by
  induction k with
  | zero => exact ⟨rfl, by rw [afterFetches, hpc]; rfl⟩
  | succ k ih =>
    have hbefore := ih (Nat.le_of_succ_le hk)
    obtain ⟨word, _, _, hrun, _⟩ := hbefore.exists_word hprogram hfits hk
    rw [afterFetches, afterFetch_of_ok hrun]
    exact hbefore.fetched hk word

/-- Where the program counter has reached the end of memory, it stays there. -/
theorem Advanced.run_fetch_end (h : m.Advanced 1792 m') (hprogram : m.HoldsProgram program) :
    fetch.run m' = .error (.error (.word (.outside 4096 4096))) m' := by
  have hmemory : m'.memory = m.memory := by rw [h.frame]
  have hword : m'.memory.wordAt m'.pc.toNat = .error (.outside 4096 4096) := by
    rw [hmemory, h.pc_eq, Memory.wordAt_eq_error_iff, hprogram.size, Memory.wordBytes]
    exact ⟨by decide, rfl⟩
  exact run_fetch_unreadable hword

theorem readsBack (hprogram : m.HoldsProgram program) (hfits : program.length ≤ 3584)
    (hpc : m.pc = Memory.programStart) : m.ReadsBack program := by
  have hadvanced : ∀ k ≤ 1792, m.Advanced k (m.afterFetches k) :=
    fun k hk => advanced_afterFetches hprogram hfits hpc hk
  refine ⟨fun k hk => ?_, hadvanced, fun k hk => ?_⟩
  · obtain ⟨word, high, low, hrun, hhigh, hlow, hjoin⟩ :=
      (hadvanced k (Nat.le_of_lt hk)).exists_word hprogram hfits hk
    refine ⟨word, high, low, ?_, hhigh, hlow, hjoin⟩
    rw [afterFetches, afterFetch_of_ok hrun]
    exact hrun
  · have hend : fetch.run (m.afterFetches 1792) = _ :=
      (hadvanced 1792 (Nat.le_refl 1792)).run_fetch_end hprogram
    have hstays : m.afterFetches k = m.afterFetches 1792 := by
      induction hk with
      | refl => rfl
      | step _ ih => rw [afterFetches, ih, afterFetch_of_error hend]
    rw [hstays]
    exact hend

/-- A word can be read where both of its bytes are, at whatever pointer. So the words of a program that
was loaded into a new machine are fetched one after the other, then zeros, and at the end of memory every
fetch fails. -/
theorem fetches_read_back :
    (∀ (memory : Memory) (pointer : UInt64), memory.ReadsWord pointer) ∧
    ∀ (settings : Settings) (keypad : Keypad) (random : RandomSource) (m : Machine),
      create settings keypad random = .ok m → ∀ program : List UInt8, program.length ≤ 3584 →
        ∃ loaded, m.loadProgram program = .ok loaded ∧ loaded.ReadsBack program := by
  refine ⟨Memory.readsWord, fun settings keypad random m hcreate program hfits => ?_⟩
  obtain ⟨loaded, hload, hpc, hprogram⟩ := exists_holdsProgram hcreate hfits
  exact ⟨loaded, hload, readsBack hprogram hfits hpc⟩

/-- Three bytes make two words, the second of which ends with a zero. No word begins at the last
pointer. -/
theorem fetches_read_back_oddLength :
    create smallest.settings smallest.keypad smallest.random = .ok smallest ∧
    [0x12, 0x34, (0x56 : UInt8)].length ≤ 3584 ∧
    (∃ loaded, smallest.loadProgram [0x12, 0x34, 0x56] = .ok loaded ∧
      fetch.run (loaded.afterFetches 1) = .ok 0x5600 (loaded.afterFetches 2) ∧
      (loaded.afterFetches 2).pc.toNat = 0x204 ∧
      fetch.run (loaded.afterFetches 1792) =
        .error (.error (.word (.outside 4096 4096))) (loaded.afterFetches 1792)) ∧
    Memory.readWord ⟨#[0x12, 0x34, 0x56]⟩ 0xFFFFFFFFFFFFFFFF =
      .error (.outside 0xFFFFFFFFFFFFFFFF 3) := by
  have hcreate : create smallest.settings smallest.keypad smallest.random = .ok smallest := rfl
  have hfits : [0x12, 0x34, (0x56 : UInt8)].length ≤ 3584 := by decide
  obtain ⟨hreads, hprograms⟩ := fetches_read_back
  obtain ⟨loaded, hload, hback⟩ := hprograms _ _ _ _ hcreate _ hfits
  obtain ⟨word, high, low, hrun, hhigh, hlow, hjoin⟩ := hback.word 1 (by decide)
  have hword : word = 0x5600 := by
    cases hhigh
    cases hlow
    exact UInt16.toNat_inj.mp hjoin
  have hlast := hreads ⟨#[0x12, 0x34, 0x56]⟩ 0xFFFFFFFFFFFFFFFF
  refine ⟨hcreate, hfits, ⟨loaded, hload, hword ▸ hrun, (hback.advanced 2 (by decide)).pc_eq,
    hback.ended 1792 (Nat.le_refl 1792)⟩, ?_⟩
  rw [hlast.slice (by decide)]
  exact hlast.refused (by decide)

end Machine

end Chip8
