import Chip8.Machine.Dump
import Chip8.Proofs.Memory.Blocks
import Mathlib.Data.List.Chain

/-!
# The rows of a memory listing

A memory is listed block by block, sixteen bytes at a time, and neighbouring blocks of zeros are listed
as a single row. `MemoryRow.Describes` says what one row may look like, and `MemoryRow.Lists` that rows
follow each other without a gap up to the end of memory, no two of zeros in succession. The rows of an
even number of bytes are such a listing (`MemoryRow.lists_ofBytes`), and what can be said about all of
them follows from that by induction:

* each address is listed once, and in order (`Lists.addresses_eq`);
* each maximal run of blocks of zeros is one row (`Lists.filter_meets`).
-/

namespace Chip8

/-- From `start` up to `stop` there is nothing but zeros. -/
def Memory.ZeroBetween (m : Memory) (start stop : Nat) : Prop :=
  ∀ address, start ≤ address → address < stop → m.bytes[address]?.getD 0 = 0

instance (m : Memory) (start stop : Nat) : Decidable (m.ZeroBetween start stop) :=
  decidable_of_iff (∀ address < stop, start ≤ address → m.bytes[address]?.getD 0 = 0)
    ⟨fun h address hlow hhigh => h address hhigh hlow, fun h address hhigh hlow => h address hlow hhigh⟩

/-- Blocks `i` to `j` hold nothing but zeros, and no block next to them does. -/
structure Memory.ZeroRun (m : Memory) (i j : Nat) : Prop where
  le : i ≤ j
  inside : 16 * j < m.size
  zeros : m.ZeroBetween (16 * i) (16 * (j + 1))
  before : ∀ h, h + 1 = i → ¬ m.ZeroBetween (16 * h) (16 * i)
  behind : 16 * (j + 1) < m.size → ¬ m.ZeroBetween (16 * (j + 1)) (16 * (j + 2))

namespace MemoryRow

/-- The addresses that a row covers. -/
def addresses (r : MemoryRow) : List Nat := List.range' r.first (r.last + 1 - r.first)

/-- Does the row cover an address from block `i` to block `j`? -/
def meets (i j : Nat) (r : MemoryRow) : Bool := 16 * i ≤ r.last && r.first < 16 * (j + 1)

/-- The row covers one block, the last of which may be shorter, and lists its words. -/
structure ListsBlock (m : Memory) (r : MemoryRow) : Prop where
  aligned : r.first % 16 = 0
  last_eq : r.last + 1 = min (r.first + 16) m.size
  length_words : 2 * r.words.length = r.last + 1 - r.first
  word : ∀ k word, r.words[k]? = some word → m.wordAt (r.first + 2 * k) = .ok word

/-- What a row of a listing may look like. -/
structure Describes (m : Memory) (r : MemoryRow) : Prop where
  le : r.first ≤ r.last
  last_lt : r.last < m.size
  aligned : r.first % 16 = 0
  ends : (r.last + 1) % 16 = 0 ∨ r.last + 1 = m.size
  isBlank_iff : r.isBlank = true ↔ m.ZeroBetween r.first (r.last + 1)
  listsBlock : r.isBlank = false → r.ListsBlock m

/-- Rows that list a memory from an address on to its end. -/
inductive Lists (m : Memory) : Nat → List MemoryRow → Prop
  | done {address : Nat} (hend : address = m.size) : Lists m address []
  | row {address : Nat} {r : MemoryRow} {rest : List MemoryRow} (hfirst : r.first = address)
      (hrow : r.Describes m) (hnext : ∀ next ∈ rest.head?, ¬ (r.isBlank = true ∧ next.isBlank = true))
      (hrest : Lists m (r.last + 1) rest) : Lists m address (r :: rest)

end MemoryRow

variable {m : Memory} {start stop i j : Nat}

theorem Memory.ZeroBetween.mono {start' stop' : Nat} (h : m.ZeroBetween start stop)
    (hstart : start ≤ start') (hstop : stop' ≤ stop) : m.ZeroBetween start' stop' :=
  fun address hlow hhigh => h address (hstart.trans hlow) (Nat.lt_of_lt_of_le hhigh hstop)

namespace MemoryRow

variable {r : MemoryRow} {rows rest : List MemoryRow} {address : Nat}

/-! ### The words of a block -/

/-- A word of two bytes is zero just if both are. -/
theorem join_eq_zero_iff (high low : UInt8) :
    (high.toUInt16 * 256 + low.toUInt16 == 0) = true ↔ high = 0 ∧ low = 0 := by
  have hjoin := Word.toNat_join high low
  have hzero : (0 : UInt16).toNat = 0 := rfl
  rw [beq_iff_eq, ← UInt16.toNat_inj, hjoin, ← UInt8.toNat_inj, ← UInt8.toNat_inj, hzero]
  show _ ↔ high.toNat = 0 ∧ low.toNat = 0
  omega

theorem length_le_one {block : List UInt8}
    (hshort : ∀ high low rest, block = high :: low :: rest → False) : block.length ≤ 1 := by
  match block, hshort with
  | [], _ => exact Nat.zero_le 1
  | [_], _ => exact Nat.le_refl 1
  | high :: low :: rest, hshort => exact (hshort high low rest rfl).elim

theorem length_wordsOf (block : List UInt8) : (wordsOf block).length = block.length / 2 := by
  induction block using wordsOf.induct with
  | case1 high low rest ih =>
    rw [wordsOf, List.length_cons, ih, List.length_cons, List.length_cons]
    omega
  | case2 block hshort =>
    have hlen := length_le_one hshort
    rw [wordsOf.eq_2 block hshort, List.length_nil]
    omega

theorem bytes_of_wordsOf {block : List UInt8} {k : Nat} {word : UInt16}
    (h : (wordsOf block)[k]? = some word) :
    ∃ high low, block[2 * k]? = some high ∧ block[2 * k + 1]? = some low ∧
      word = high.toUInt16 * 256 + low.toUInt16 := by
  induction block using wordsOf.induct generalizing k with
  | case1 high low rest ih =>
    rw [wordsOf] at h
    cases k with
    | zero =>
      cases h
      exact ⟨high, low, rfl, rfl, rfl⟩
    | succ k => exact ih h
  | case2 block hshort =>
    rw [wordsOf.eq_2 block hshort] at h
    cases h

/-- The words of an even number of bytes are zero just if all of the bytes are. -/
theorem all_wordsOf_iff {block : List UInt8} (heven : block.length % 2 = 0) :
    (wordsOf block).all (· == 0) = true ↔ ∀ b ∈ block, b = 0 := by
  induction block using wordsOf.induct with
  | case1 high low rest ih =>
    rw [List.length_cons, List.length_cons] at heven
    rw [wordsOf, List.all_cons, Bool.and_eq_true, join_eq_zero_iff, ih (by omega),
      List.forall_mem_cons, List.forall_mem_cons, and_assoc]
  | case2 block hshort =>
    have hlen := length_le_one hshort
    have hnil : block = [] := List.eq_nil_of_length_eq_zero (by omega)
    rw [wordsOf.eq_2 block hshort, hnil]
    simp

/-! ### The row of a block -/

/-- The bytes of the block that begins at an address. -/
def blockAt (m : Memory) (address : Nat) : List UInt8 := (m.bytes.toList.drop address).take span

/-- The row of the block that begins at an address. -/
def ofBlock (m : Memory) (address : Nat) : MemoryRow :=
  { first := address
    last := address + (blockAt m address).length - 1
    words := wordsOf (blockAt m address) }

theorem length_blockAt (m : Memory) (address : Nat) :
    (blockAt m address).length = min 16 (m.size - address) := by
  rw [blockAt, List.length_take, List.length_drop, Array.length_toList]
  rfl

theorem getElem?_blockAt {k : Nat} (hk : k < 16) :
    (blockAt m address)[k]? = m.bytes[address + k]? := by
  show ((m.bytes.toList.drop address).take 16)[k]? = _
  rw [List.getElem?_take_of_lt hk, List.getElem?_drop, Array.getElem?_toList]

theorem last_ofBlock (hlt : address < m.size) :
    (ofBlock m address).last + 1 = min (address + 16) m.size := by
  have hlen := length_blockAt m address
  show address + (blockAt m address).length - 1 + 1 = _
  omega

theorem isBlank_ofBlock_iff (heven : m.size % 2 = 0) (haligned : address % 16 = 0)
    (hlt : address < m.size) : (ofBlock m address).isBlank = true ↔
      m.ZeroBetween address ((ofBlock m address).last + 1) := by
  have hlen := length_blockAt m address
  rw [last_ofBlock hlt, isBlank]
  show (wordsOf (blockAt m address)).all (· == 0) = true ↔ _
  rw [all_wordsOf_iff (by omega)]
  constructor
  · intro hzero a hlow hhigh
    obtain ⟨k, rfl⟩ := Nat.exists_eq_add_of_le hlow
    rw [← getElem?_blockAt (by omega), List.getElem?_eq_getElem (by omega)]
    exact hzero _ (List.getElem_mem _)
  · intro hzero b hb
    obtain ⟨k, hk, rfl⟩ := List.mem_iff_getElem.mp hb
    have hbyte := hzero (address + k) (by omega) (by omega)
    rw [← getElem?_blockAt (by omega), List.getElem?_eq_getElem hk] at hbyte
    exact hbyte

theorem listsBlock_ofBlock (heven : m.size % 2 = 0) (haligned : address % 16 = 0)
    (hlt : address < m.size) : (ofBlock m address).ListsBlock m := by
  have hlen := length_blockAt m address
  refine ⟨haligned, last_ofBlock hlt, ?_, fun k word hword => ?_⟩
  · show 2 * (wordsOf (blockAt m address)).length = _ - address
    rw [last_ofBlock hlt, length_wordsOf]
    omega
  · have hk : k < (wordsOf (blockAt m address)).length := (List.getElem?_eq_some_iff.mp hword).1
    rw [length_wordsOf] at hk
    obtain ⟨high, low, hhigh, hlow, rfl⟩ := bytes_of_wordsOf hword
    rw [getElem?_blockAt (by omega)] at hhigh hlow
    exact Memory.wordAt_of_getElem? hhigh hlow

theorem describes_ofBlock (heven : m.size % 2 = 0) (haligned : address % 16 = 0)
    (hlt : address < m.size) : (ofBlock m address).Describes m := by
  have hlast := last_ofBlock hlt
  refine ⟨?_, ?_, haligned, ?_, isBlank_ofBlock_iff heven haligned hlt,
    fun _ => listsBlock_ofBlock heven haligned hlt⟩
  · show address ≤ _
    omega
  · omega
  · omega

/-! ### Merging -/

/-- A row can be put in front of a listing of what follows, by merging it if need be. -/
theorem Lists.cons (h : Lists m (r.last + 1) rest) (hrow : r.Describes m) :
    Lists m r.first (MemoryRow.cons r rest) := by
  cases rest with
  | nil => exact .row rfl hrow (fun _ hnone => by cases hnone) h
  | cons next rest =>
    cases h with
    | row hfirst hdescribed hnext hrest =>
      rw [MemoryRow.cons]
      split
      · next hboth =>
        obtain ⟨hblank, hblank'⟩ := Bool.and_eq_true_iff.mp hboth
        have hzeros := hrow.isBlank_iff.mp hblank
        have hzeros' := hdescribed.isBlank_iff.mp hblank'
        have hjoined : m.ZeroBetween r.first (next.last + 1) := by
          intro a hlow hhigh
          by_cases hin : a < r.last + 1
          · exact hzeros a hlow hin
          · exact hzeros' a (by omega) hhigh
        have hle := hrow.le
        have hle' := hdescribed.le
        refine .row rfl ⟨?_, hdescribed.last_lt, hrow.aligned, hdescribed.ends, ?_, ?_⟩ hnext hrest
        · show r.first ≤ next.last
          omega
        · exact iff_of_true hblank' hjoined
        · intro hwords
          exact absurd (hblank'.symm.trans hwords) (by decide)
      · next hnot =>
        refine .row rfl hrow (fun n hn => ?_) (.row hfirst hdescribed hnext hrest)
        cases hn
        rw [← Bool.and_eq_true_iff]
        exact hnot

/-- The rows of what remains of memory from the beginning of a block on. -/
theorem lists_merge (heven : m.size % 2 = 0) {entries : List UInt8}
    (hentries : entries = m.bytes.toList.drop address)
    (haligned : address % 16 = 0 ∨ address = m.size) (hle : address ≤ m.size) :
    Lists m address (merge (ofBlocks address (blocks span entries))) := by
  have hlen : entries.length = m.size - address := by
    rw [hentries, List.length_drop, Array.length_toList]
    rfl
  fun_induction blocks span entries generalizing address with
  | case1 entries h =>
    have hnil : entries = [] := h.resolve_right (by decide)
    rw [hnil, List.length_nil] at hlen
    exact .done (by omega)
  | case2 entries h ih =>
    have hpos : 0 < entries.length := List.length_pos_iff.mpr fun hnil => h (.inl hnil)
    have hblock : entries.take span = blockAt m address := by rw [hentries, blockAt]
    have hrow : (ofBlock m address).Describes m :=
      describes_ofBlock heven (haligned.resolve_right (by omega)) (by omega)
    have hlast : (ofBlock m address).last + 1 = min (address + 16) m.size := last_ofBlock (by omega)
    have hnext : address + (blockAt m address).length = (ofBlock m address).last + 1 := by
      have := length_blockAt m address
      omega
    have hdrop : entries.drop span = m.bytes.toList.drop ((ofBlock m address).last + 1) := by
      have hsize : m.bytes.toList.length = m.size := Array.length_toList
      rw [hentries, List.drop_drop, span, hlast]
      by_cases hfull : address + 16 ≤ m.size
      · rw [Nat.min_eq_left hfull]
      · rw [List.drop_eq_nil_of_le (by omega), List.drop_eq_nil_of_le (by omega)]
    have hrest : Lists m ((ofBlock m address).last + 1)
        (merge (ofBlocks ((ofBlock m address).last + 1) (blocks span (entries.drop span)))) := by
      refine ih hdrop hrow.ends hrow.last_lt ?_
      rw [hdrop, List.length_drop, Array.length_toList]
      rfl
    rw [ofBlocks, hblock, hnext]
    exact hrest.cons hrow

/-- The rows of an even number of bytes are a listing of them. -/
theorem lists_ofBytes (heven : m.size % 2 = 0) : Lists m 0 (ofBytes m.bytes.toList) :=
  lists_merge heven rfl (.inl rfl) (Nat.zero_le _)

/-! ### What holds of a listing -/

theorem Lists.describes (h : Lists m address rows) : ∀ r ∈ rows, r.Describes m := by
  induction h with
  | done hend => exact fun r hr => absurd hr List.not_mem_nil
  | row hfirst hrow hnext hrest ih => exact List.forall_mem_cons.mpr ⟨hrow, ih⟩

theorem Lists.le_first (h : Lists m address rows) : ∀ r ∈ rows, address ≤ r.first := by
  induction h with
  | done hend => exact fun r hr => absurd hr List.not_mem_nil
  | row hfirst hrow hnext hrest ih =>
    refine List.forall_mem_cons.mpr ⟨Nat.le_of_eq hfirst.symm, fun r hr => ?_⟩
    have hle := hrow.le
    have hlater := ih r hr
    omega

/-- Every address is listed once, and in order. -/
theorem Lists.addresses_eq (h : Lists m address rows) :
    rows.flatMap addresses = List.range' address (m.size - address) := by
  induction h with
  | done hend => rw [hend, Nat.sub_self, List.flatMap_nil, List.range'_zero]
  | @row address r rest hfirst hrow hnext hrest ih =>
    have hle := hrow.le
    have hlt := hrow.last_lt
    have hstart : r.last + 1 = address + (r.last + 1 - address) := by omega
    have hcount : m.size - address = (r.last + 1 - address) + (m.size - (r.last + 1)) := by omega
    rw [List.flatMap_cons, ih, addresses, hfirst, hcount, ← List.range'_append_1, ← hstart]

/-- No two neighbours are rows of zeros. -/
theorem Lists.isChain (h : Lists m address rows) :
    rows.IsChain fun r next => ¬ (r.isBlank = true ∧ next.isBlank = true) := by
  induction h with
  | done hend => exact .nil
  | row hfirst hrow hnext hrest ih => exact List.isChain_cons.mpr ⟨hnext, ih⟩

/-! ### Runs of zeros -/

/-- Where a run of zeros begins, so does a row of zeros. -/
theorem Describes.first_eq (hrow : r.Describes m) (hrun : m.ZeroRun i j)
    (hfirst : r.first ≤ 16 * i) (hlast : 16 * i ≤ r.last) :
    r.isBlank = true ∧ r.first = 16 * i := by
  have hle := hrun.le
  have haligned := hrow.aligned
  have hblank : r.isBlank = true := by
    by_contra hwords
    have hblock := hrow.listsBlock (Bool.not_eq_true _ ▸ hwords)
    have hend := hblock.last_eq
    exact hwords (hrow.isBlank_iff.mpr (hrun.zeros.mono (by omega) (by omega)))
  refine ⟨hblank, ?_⟩
  by_contra hne
  obtain ⟨h, hh⟩ : ∃ h, h + 1 = i := ⟨i - 1, by omega⟩
  exact hrun.before h hh ((hrow.isBlank_iff.mp hblank).mono (by omega) (by omega))

/-- A row of zeros that begins with a run of them ends with it. -/
theorem Lists.last_eq (hrest : Lists m (r.last + 1) rest) (hrow : r.Describes m)
    (hblank : r.isBlank = true) (hnext : ∀ next ∈ rest.head?, ¬ (r.isBlank = true ∧ next.isBlank = true))
    (hrun : m.ZeroRun i j) (hfirst : r.first = 16 * i) :
    r.last + 1 = min (16 * (j + 1)) m.size := by
  have hij := hrun.le
  have hle := hrow.le
  have hlt := hrow.last_lt
  have hends := hrow.ends
  by_contra hne
  by_cases hshort : r.last + 1 < min (16 * (j + 1)) m.size
  · -- the row that follows would begin within the run, and have nothing but zeros as well
    cases hrest with
    | done hend => omega
    | @row _ next rest hstart hdescribed hnext' hrest' =>
      have hwords : next.isBlank = false := by
        have := hnext next rfl
        simpa [hblank] using this
      have hblock := (hdescribed.listsBlock hwords).last_eq
      have haligned := hdescribed.aligned
      have hzeros : m.ZeroBetween next.first (next.last + 1) :=
        hrun.zeros.mono (by omega) (by omega)
      exact absurd (hwords.symm.trans (hdescribed.isBlank_iff.mpr hzeros)) (by decide)
  · -- the row would reach over the block that follows the run
    refine hrun.behind (by omega) fun a hlow hhigh => ?_
    by_cases hin : a < r.last + 1
    · exact hrow.isBlank_iff.mp hblank a (by omega) hin
    · have hsize : m.bytes.size = m.size := rfl
      rw [Array.getElem?_eq_none (by omega)]
      rfl

/-- A maximal run of blocks of zeros is covered by a single row, from its beginning to its end. -/
theorem Lists.filter_meets (h : Lists m address rows) (hrun : m.ZeroRun i j)
    (hle : address ≤ 16 * i) :
    ∃ r, rows.filter (meets i j) = [r] ∧ r.isBlank = true ∧ r.first = 16 * i ∧
      r.last + 1 = min (16 * (j + 1)) m.size := by
  have hij := hrun.le
  have hinside := hrun.inside
  induction h with
  | done hend => omega
  | @row address r rest hfirst hrow hnext hrest ih =>
    by_cases hreach : 16 * i ≤ r.last
    · obtain ⟨hblank, hstart⟩ := hrow.first_eq hrun (by omega) hreach
      have hend := hrest.last_eq hrow hblank hnext hrun hstart
      have hmeets : meets i j r = true := by
        rw [meets, Bool.and_eq_true, decide_eq_true_eq, decide_eq_true_eq]
        omega
      have hnone : rest.filter (meets i j) = [] := by
        refine List.filter_eq_nil_iff.mpr fun later hlater hmeets' => ?_
        have hbehind := hrest.le_first later hlater
        have hdescribed := hrest.describes later hlater
        have hle' := hdescribed.le
        have hlt := hdescribed.last_lt
        rw [meets, Bool.and_eq_true, decide_eq_true_eq, decide_eq_true_eq] at hmeets'
        omega
      exact ⟨r, by rw [List.filter_cons_of_pos hmeets, hnone], hblank, hstart, hend⟩
    · have hmisses : ¬ meets i j r = true := by
        rw [meets, Bool.and_eq_true, decide_eq_true_eq, decide_eq_true_eq]
        omega
      rw [List.filter_cons_of_neg hmisses]
      exact ih (by omega)

end MemoryRow

end Chip8
