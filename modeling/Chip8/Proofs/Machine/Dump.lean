import Chip8.Proofs.Keypad.Holding
import Chip8.Proofs.Machine.Listing
import Chip8.Proofs.Machine.Soundness

/-!
# A dump loses nothing

Two machines have the same dump just if they agree on everything that it lists (`Machine.dump_lossless`).
A dump is cut into its lines; as all the tables have their fixed numbers of lines, what comes behind them
is the memory listing, and its rows tell how far each of them reaches. A byte of memory is then found in
the row that covers it: as a zero, or within a word.

The call stack is filled up with zeros, and so a dump cannot tell zeros that were pushed from room that
is left. No call pushes an address of zero: machines that came about by their own steps, and have the
same dump, have the same call stack.
-/

namespace Chip8

/-! ### Memory -/

namespace MemoryRow

variable {m m' : Memory} {r r' : MemoryRow} {rows rows' : List MemoryRow} {start address : Nat}

/-- The bytes that a row covers can be read off its line. -/
theorem Describes.byte_eq (hrow : r.Describes m) (hrow' : r'.Describes m')
    (hline : Dump.memoryLine r = Dump.memoryLine r') (hlow : r.first ≤ address)
    (hhigh : address ≤ r.last) : m.bytes[address]? = m'.bytes[address]? := by
  obtain ⟨hfirst, hlast, hblank, hwords⟩ := Dump.memoryLine_inj hline
  have hlt : address < m.bytes.size := Nat.lt_of_le_of_lt hhigh hrow.last_lt
  have hlt' : address < m'.bytes.size := Nat.lt_of_le_of_lt (hlast ▸ hhigh) hrow'.last_lt
  cases hzeros : r.isBlank with
  | true =>
    have hzero := hrow.isBlank_iff.mp hzeros address hlow (Nat.lt_succ_of_le hhigh)
    have hzero' := hrow'.isBlank_iff.mp (hblank ▸ hzeros) address (hfirst ▸ hlow)
      (Nat.lt_succ_of_le (hlast ▸ hhigh))
    rw [Array.getElem?_eq_getElem hlt] at hzero ⊢
    rw [Array.getElem?_eq_getElem hlt'] at hzero' ⊢
    exact congrArg some (hzero.trans hzero'.symm)
  | false =>
    have hlists := hrow.listsBlock hzeros
    have hlists' := hrow'.listsBlock (hblank ▸ hzeros)
    obtain ⟨k, hk⟩ : ∃ k, address = r.first + 2 * k ∨ address = r.first + 2 * k + 1 :=
      ⟨(address - r.first) / 2, by omega⟩
    have hinside : k < r.words.length := by
      have := hlists.length_words
      omega
    obtain ⟨word, hword⟩ : ∃ word, r.words[k]? = some word := ⟨_, List.getElem?_eq_getElem hinside⟩
    have hread := hlists.word k word hword
    have hread' := hlists'.word k word (hwords hzeros ▸ hword)
    rw [← hfirst] at hread'
    obtain ⟨hhighByte, hlowByte⟩ := Memory.bytes_eq_of_wordAt hread hread'
    rcases hk with rfl | rfl
    · exact hhighByte
    · exact hlowByte

/-- Listings with the same lines are of the same bytes. -/
theorem Lists.bytes_eq (h : Lists m start rows) (h' : Lists m' start rows') (hsize : m.size = m'.size)
    (hlines : rows.map Dump.memoryLine = rows'.map Dump.memoryLine) (hlow : start ≤ address) :
    m.bytes[address]? = m'.bytes[address]? := by
  induction h generalizing rows' with
  | done hend =>
    have hpast : m.size ≤ address := hend ▸ hlow
    have hpast' : m'.size ≤ address := hsize ▸ hpast
    rw [Array.getElem?_eq_none hpast, Array.getElem?_eq_none hpast']
  | @row start r rest hfirst hrow hnext hrest ih =>
    cases h' with
    | done hend => cases hlines
    | @row _ r' rest' hfirst' hrow' hnext' hrest' =>
      obtain ⟨hline, hlater⟩ := List.cons.inj hlines
      have hlast := (Dump.memoryLine_inj hline).2.1
      by_cases hin : address ≤ r.last
      · exact hrow.byte_eq hrow' hline (hfirst ▸ hlow) hin
      · exact ih (hlast ▸ hrest') hlater (Nat.lt_of_not_le hin)

end MemoryRow

namespace Machine

/-- Two machines agree on what a dump lists; each is looked at when its own clock says. -/
structure Agree (m m' : Machine) : Prop where
  pc : m.pc = m'.pc
  opcode : m.opcode = m'.opcode
  index : m.index = m'.index
  delay : m.timers.delay = m'.timers.delay
  sound : m.timers.sound = m'.timers.sound
  registers : m.registers = m'.registers
  memory : m.memory = m'.memory
  held : ∀ key : UInt8, key.toNat < Keypad.keyCount →
    (m.keypad.held.HeldAt m.keypad.now key ↔ m'.keypad.held.HeldAt m'.keypad.now key)
  /-- Where one call stack ends, the other may go on with zeros. -/
  stack : ∀ k < CallStack.capacity, m.stack.entries[k]?.getD 0 = m'.stack.entries[k]?.getD 0

variable {m m' : Machine} {rows rows' : List MemoryRow}

/-! ### The call stack and the keys -/

theorem filledStack_eq_map (m : Machine) : m.filledStack =
    (List.range CallStack.capacity).map fun k => (m.stack.entries[k]?.getD 0).toNat := by
  refine List.ext_getElem? fun k => ?_
  rw [filledStack, List.getElem?_map]
  by_cases hk : k < CallStack.capacity
  · rw [List.getElem?_take_of_lt hk, List.getElem?_range hk, Option.map_some]
    by_cases hinside : k < m.stack.entries.length
    · rw [List.getElem?_append_left (by rwa [List.length_map]), List.getElem?_map,
        List.getElem?_eq_getElem hinside]
      rfl
    · have hoffset : k - m.stack.entries.length < CallStack.capacity := by omega
      rw [List.getElem?_append_right (by rw [List.length_map]; omega), List.length_map,
        List.getElem?_replicate, if_pos hoffset, List.getElem?_eq_none (Nat.le_of_not_lt hinside)]
      rfl
  · have hpast : (List.range CallStack.capacity).length ≤ k := by
      rw [List.length_range]
      omega
    rw [List.getElem?_eq_none hpast, List.getElem?_take_eq_none (Nat.le_of_not_lt hk)]
    rfl

theorem filledStack_eq_iff : m.filledStack = m'.filledStack ↔
    ∀ k < CallStack.capacity, m.stack.entries[k]?.getD 0 = m'.stack.entries[k]?.getD 0 := by
  rw [filledStack_eq_map, filledStack_eq_map, List.map_inj_left]
  simp only [List.mem_range, UInt16.toNat_inj]

theorem keyFlags_eq_iff : m.keyFlags = m'.keyFlags ↔
    ∀ key : UInt8, key.toNat < Keypad.keyCount →
      (m.keypad.held.HeldAt m.keypad.now key ↔ m'.keypad.held.HeldAt m'.keypad.now key) := by
  have hflag : ∀ (k : Keypad) (key : UInt8),
      k.pressed.2.contains key = true ↔ k.held.HeldAt k.now key := by
    intro k key
    rw [List.contains_iff_mem]
    exact (HeldKeys.mem_codes_iff _).trans (HeldKeys.has_evict_iff _)
  rw [keyFlags, keyFlags, List.map_inj_left]
  constructor
  · intro hsame key hkey
    have hbits := hsame key.toNat (List.mem_range.mpr hkey)
    rw [UInt8.ofNat_toNat] at hbits
    rw [← hflag, ← hflag, hbits]
  · intro hsame n hn
    have hn' := List.mem_range.mp hn
    have hlt : n < 256 := Nat.lt_trans hn' (by decide)
    rw [Bool.eq_iff_iff, hflag, hflag]
    exact hsame _ (by rwa [UInt8.toNat_ofNat_of_lt' hlt])

/-! ### The sections -/

theorem length_registers (m : Machine) :
    (m.registers.toList.map UInt8.toNat).length = 2 * Dump.rowLength := by
  rw [List.length_map, Vector.length_toList]
  rfl

theorem length_filledStack (m : Machine) : m.filledStack.length = 2 * Dump.rowLength := by
  rw [filledStack_eq_map, List.length_map, List.length_range]
  rfl

theorem length_keyFlags (m : Machine) : m.keyFlags.length = 2 * Dump.rowLength := by
  rw [keyFlags, List.length_map, List.length_range]
  rfl

/-- Everything that is listed can be read off the lines of a dump. -/
theorem linesWith_inj (h : m.linesWith rows = m'.linesWith rows') :
    (m.pc = m'.pc ∧ m.opcode = m'.opcode ∧ m.index = m'.index ∧
      m.timers.delay = m'.timers.delay ∧ m.timers.sound = m'.timers.sound) ∧
    m.registers = m'.registers ∧ m.filledStack = m'.filledStack ∧ m.keyFlags = m'.keyFlags ∧
    rows.map Dump.memoryLine = rows'.map Dump.memoryLine := by
  have hnumbers : ∀ {row row' : List Nat}, row.length = row'.length →
      Dump.numberRow row = Dump.numberRow row' → row = row' :=
    fun _ hrow => Dump.numberRow_inj hrow
  simp only [linesWith, List.append_assoc] at h
  obtain ⟨hpc, h⟩ := Dump.titled_single_append_inj (List.append_cancel_left h)
  obtain ⟨hopcode, h⟩ := Dump.titled_single_append_inj h
  obtain ⟨hindex, h⟩ := Dump.titled_single_append_inj h
  obtain ⟨hdelay, h⟩ := Dump.titled_single_append_inj h
  obtain ⟨hsound, h⟩ := Dump.titled_single_append_inj h
  obtain ⟨hregisters, h⟩ :=
    Dump.titled_table_append_inj hnumbers m.length_registers m'.length_registers h
  obtain ⟨hstack, h⟩ :=
    Dump.titled_table_append_inj hnumbers m.length_filledStack m'.length_filledStack h
  obtain ⟨hkeys, h⟩ :=
    Dump.titled_table_append_inj Dump.flagRow_inj m.length_keyFlags m'.length_keyFlags h
  -- the listing is of any length, but only the closing brace comes behind it
  have hmemory := (List.append_inj' h rfl).1
  refine ⟨⟨UInt16.toNat_inj.mp hpc, UInt16.toNat_inj.mp hopcode, UInt16.toNat_inj.mp hindex,
    UInt8.toNat_inj.mp hdelay, UInt8.toNat_inj.mp hsound⟩, ?_, hstack, hkeys,
    (List.cons.inj hmemory).2⟩
  exact Vector.toList_inj.mp
    (List.map_injective_iff.mpr (fun _ _ => UInt8.toNat_inj.mp) hregisters)

theorem oneLine_linesWith (m : Machine) (rows : List MemoryRow) :
    ∀ line ∈ m.linesWith rows, Dump.OneLine line := by
  simp only [linesWith, List.append_assoc, List.forall_mem_append, List.forall_mem_singleton]
  refine ⟨by simp [Dump.OneLine], ?_, ?_, ?_, ?_, ?_, ?_, ?_, ?_, ?_, by simp [Dump.OneLine]⟩
  all_goals refine Dump.oneLine_titled (by simp [Dump.OneLine]) ?_
  · exact Dump.oneLine_single _
  · exact Dump.oneLine_single _
  · exact Dump.oneLine_single _
  · exact Dump.oneLine_single _
  · exact Dump.oneLine_single _
  · exact Dump.oneLine_table Dump.oneLine_numberRow _
  · exact Dump.oneLine_table Dump.oneLine_numberRow _
  · exact Dump.oneLine_table Dump.oneLine_flagRow _
  · intro line hline
    obtain ⟨r, -, rfl⟩ := List.mem_map.mp hline
    exact Dump.oneLine_memoryLine r

theorem linesWith_ne_nil (m : Machine) (rows : List MemoryRow) : m.linesWith rows ≠ [] :=
  List.append_ne_nil_of_right_ne_nil _ (List.cons_ne_nil _ _)

/-! ### What a dump tells -/

/-- Formatting does not fail, and its text is the dump. -/
theorem format_eq (m : Machine) : m.format = .ok m.dump := by
  rw [format, MemoryRow.print_eq]
  rfl

theorem Agree.dump_eq (h : Agree m m') : m.dump = m'.dump := by
  have hstack := filledStack_eq_iff.mpr h.stack
  have hkeys := keyFlags_eq_iff.mpr h.held
  rw [dump, dump, dumpLines, dumpLines, linesWith, linesWith, h.pc, h.opcode, h.index, h.delay,
    h.sound, h.registers, h.memory, hstack, hkeys]

theorem agree_of_dump_eq (hsize : m.memory.size = Memory.capacity)
    (hsize' : m'.memory.size = Memory.capacity) (h : m.dump = m'.dump) : Agree m m' := by
  have hlines := Dump.lines_inj (linesWith_ne_nil m _) (linesWith_ne_nil m' _)
    (oneLine_linesWith m _) (oneLine_linesWith m' _) h
  obtain ⟨⟨hpc, hopcode, hindex, hdelay, hsound⟩, hregisters, hstack, hkeys, hrows⟩ :=
    linesWith_inj hlines
  have hlists := MemoryRow.lists_ofBytes (m := m.memory) (by rw [hsize]; rfl)
  have hlists' := MemoryRow.lists_ofBytes (m := m'.memory) (by rw [hsize']; rfl)
  have hbytes : ∀ address : Nat, m'.memory.bytes[address]? = m.memory.bytes[address]? :=
    fun address => (hlists.bytes_eq hlists' (hsize.trans hsize'.symm) hrows (Nat.zero_le _)).symm
  exact ⟨hpc, hopcode, hindex, hdelay, hsound, hregisters, (Memory.eq_of_bytes hbytes).symm,
    keyFlags_eq_iff.mp hkeys, filledStack_eq_iff.mp hstack⟩

end Machine

/-! ### Call stacks without zeros -/

namespace CallStack

variable {s s' : CallStack}

/-- No call pushes an address of zero. -/
theorem Sound.zero_notMem (h : s.Sound) : 0 ∉ s.addresses := by
  intro hzero
  have hbound : 2 ≤ (0 : UInt16).toNat := (h.mem_bounds 0 hzero).1
  exact absurd hbound (by decide)

theorem Sound.ne_zero (h : s.Sound) {k : Nat} {address : UInt16}
    (hentry : s.entries[k]? = some address) : address ≠ 0 := by
  have hmem : address ∈ s.addresses := List.mem_reverse.mp (List.mem_of_getElem? hentry)
  exact fun hzero => h.zero_notMem (hzero ▸ hmem)

/-- Sound call stacks are the same if they are so when filled up with zeros. -/
theorem Sound.eq_of_filled (h : s.Sound) (h' : s'.Sound)
    (hfilled : ∀ k < capacity, s.entries[k]?.getD 0 = s'.entries[k]?.getD 0) : s = s' := by
  have hentries : s.entries = s'.entries := by
    refine List.ext_getElem? fun k => ?_
    by_cases hk : k < capacity
    · have hvalue := hfilled k hk
      cases hentry : s.entries[k]? with
      | none =>
        cases hentry' : s'.entries[k]? with
        | none => rfl
        | some address' =>
          rw [hentry, hentry'] at hvalue
          exact absurd hvalue.symm (h'.ne_zero hentry')
      | some address =>
        cases hentry' : s'.entries[k]? with
        | none =>
          rw [hentry, hentry'] at hvalue
          exact absurd hvalue (h.ne_zero hentry)
        | some address' =>
          rw [hentry, hentry'] at hvalue
          exact congrArg some hvalue
    · have hdepth : s.entries.length ≤ k := by
        rw [entries, List.length_reverse]
        exact h.depth_le.trans (Nat.le_of_not_lt hk)
      have hdepth' : s'.entries.length ≤ k := by
        rw [entries, List.length_reverse]
        exact h'.depth_le.trans (Nat.le_of_not_lt hk)
      rw [List.getElem?_eq_none hdepth, List.getElem?_eq_none hdepth']
  have haddresses : s.addresses = s'.addresses := List.reverse_injective hentries
  cases s
  cases s'
  exact congrArg CallStack.mk haddresses

end CallStack

namespace Machine

/-- Formatting a machine does not fail, and the texts of two machines are the same just if they agree on
what is listed. If both came about by their own steps, they also have the same call stack then. -/
theorem dump_lossless (m m' : Machine) (hsize : m.memory.size = Memory.capacity)
    (hsize' : m'.memory.size = Memory.capacity) :
    m.format = .ok m.dump ∧ (m.dump = m'.dump ↔ Agree m m') ∧
      (m.Reachable → m'.Reachable →
        0 ∉ m.stack.addresses ∧ (m.dump = m'.dump → m.stack = m'.stack)) := by
  refine ⟨m.format_eq, ⟨agree_of_dump_eq hsize hsize', Agree.dump_eq⟩, ?_⟩
  intro hreach hreach'
  have hsound := hreach.sound.stack
  refine ⟨hsound.zero_notMem, fun hdump => ?_⟩
  exact hsound.eq_of_filled hreach'.sound.stack (agree_of_dump_eq hsize hsize' hdump).stack

/-- The smallest machine at a later time, with a key that is not held any more. -/
def smallestLater : Machine :=
  { smallest with
    keypad := { now := HeldKeys.lifetime + 1, held := HeldKeys.none.press 0 5 } }

/-- A dump shows neither the time nor a press that is too old, and no zero on the call stack; it does
show the program counter. -/
theorem dump_lossless_smallest :
    smallest.Reachable ∧ smallestLater.Reachable ∧ smallest.format = .ok smallest.dump ∧
      smallest.dump = smallestLater.dump ∧ smallest.stack = smallestLater.stack ∧
      smallest.dump = { smallest with stack := ⟨[0]⟩ }.dump ∧
      smallest.dump ≠ { smallest with pc := 0x202 }.dump := by
  have hcreate : create smallest.settings smallest.keypad smallest.random = .ok smallest := rfl
  have hreach : smallest.Reachable := .create hcreate
  have hreach' : smallestLater.Reachable := .surroundings _ smallest.timers smallest.random hreach
  have hsize := hreach.sound.memory_size
  have hkeys : ∀ key : UInt8, key.toNat < Keypad.keyCount →
      (smallest.keypad.held.HeldAt smallest.keypad.now key ↔
        smallestLater.keypad.held.HeldAt smallestLater.keypad.now key) := by
    intro key _
    have hunheld : ¬ smallest.keypad.held.HeldAt smallest.keypad.now key :=
      HeldKeys.not_heldAt_none _ key
    have hunheld' : ¬ smallestLater.keypad.held.HeldAt smallestLater.keypad.now key := by
      refine fun hheld => absurd ((HeldKeys.heldAt_press _ 5).mp hheld) ?_
      split
      · decide
      · exact HeldKeys.not_heldAt_none _ key
    exact iff_of_false hunheld hunheld'
  obtain ⟨hformat, hsame, hstacks⟩ := dump_lossless smallest smallestLater hsize hsize
  have hdump := hsame.mpr ⟨rfl, rfl, rfl, rfl, rfl, rfl, rfl, hkeys, fun k _ => rfl⟩
  obtain ⟨_, hpadded, _⟩ := dump_lossless smallest { smallest with stack := ⟨[0]⟩ } hsize hsize
  obtain ⟨_, hmoved, _⟩ := dump_lossless smallest { smallest with pc := 0x202 } hsize hsize
  refine ⟨hreach, hreach', hformat, hdump, (hstacks hreach hreach').2 hdump, hpadded.mpr ?_, ?_⟩
  · refine ⟨rfl, rfl, rfl, rfl, rfl, rfl, rfl, fun key _ => Iff.rfl, fun k hk => ?_⟩
    cases k with
    | zero => rfl
    | succ k => rfl
  · intro heq
    exact absurd (hmoved.mp heq).pc (by decide)

end Machine

end Chip8
