import Chip8.Proofs.Machine.DumpLines
import Chip8.Proofs.Machine.MemoryRows

/-!
# Listing memory in one pass

`MemoryRow.print` goes through memory block by block and keeps the rows so far, the last of which it
extends when one more block of zeros follows. Reading a word can fail; but a row ends with its block, and
so no word is read that is not there, and the pass makes just the rows that are written into a dump
(`MemoryRow.print_eq`).

Of an even number of bytes the rows are what one expects of a listing (`MemoryRow.prints_listing`).
-/

namespace Chip8.MemoryRow

/-- The row is written with dots in place of words. -/
def IsFiller (r : MemoryRow) : Prop :=
  Dump.memoryLine r = Dump.indent ++ Dump.range r.first r.last ++ (" " ++ Dump.filler)

/-- What the rows of a memory are like. -/
structure IsListing (m : Memory) (rows : List MemoryRow) : Prop where
  printed : print m = .ok rows
  /-- Every address is covered once, and in order. -/
  addresses_eq : rows.flatMap addresses = List.range m.size
  le : ∀ r ∈ rows, r.first ≤ r.last
  isFiller_iff : ∀ r ∈ rows, r.IsFiller ↔ m.ZeroBetween r.first (r.last + 1)
  /-- A row with a byte that is not zero is one block, and all of its words are written. -/
  words : ∀ r ∈ rows, ¬ m.ZeroBetween r.first (r.last + 1) → r.ListsBlock m ∧
    Dump.memoryLine r = Dump.indent ++ Dump.range r.first r.last ++
      Dump.numberRow (r.words.map UInt16.toNat)
  /-- A maximal run of blocks of zeros is a single row. -/
  run : ∀ i j, m.ZeroRun i j → ∃ r, rows.filter (meets i j) = [r] ∧ r.IsFiller ∧
    r.first = 16 * i ∧ r.last + 1 = min (16 * (j + 1)) m.size
  neighbours : rows.IsChain fun r next => ¬ (r.IsFiller ∧ next.IsFiller)

variable {m : Memory} {r last : MemoryRow} {rows rest earlier : List MemoryRow} {address : Nat}

/-! ### Reading the blocks -/

/-- All the words of some bytes of memory can be read. -/
theorem mapM_wordAt {block : List UInt8}
    (hblock : ∀ k b, block[k]? = some b → m.bytes[address + k]? = some b) :
    (List.range' address (block.length / 2) 2).mapM m.wordAt = .ok (wordsOf block) := by
  induction block using wordsOf.induct generalizing address with
  | case1 high low rest ih =>
    have hcount : (high :: low :: rest).length / 2 = rest.length / 2 + 1 := by
      rw [List.length_cons, List.length_cons]
      omega
    have hword := Memory.wordAt_of_getElem? (hblock 0 high rfl) (hblock 1 low rfl)
    rw [Nat.add_zero] at hword
    have hrest : (List.range' (address + 2) (rest.length / 2) 2).mapM m.wordAt = .ok (wordsOf rest) := by
      refine ih fun k b hb => ?_
      rw [Nat.add_assoc, Nat.add_comm 2 k]
      exact hblock (k + 2) b hb
    rw [hcount, List.range'_succ, List.mapM_cons, wordsOf, hword, hrest]
    rfl
  | case2 block hshort =>
    have hlen := length_le_one hshort
    have hcount : block.length / 2 = 0 := by omega
    rw [wordsOf.eq_2 block hshort, hcount]
    rfl

theorem read_eq (hlt : address < m.size) : read m address = .ok (ofBlock m address) := by
  have hlen := length_blockAt m address
  have hlast : min (address + span) m.size - 1 = (ofBlock m address).last := by
    rw [← Nat.add_sub_cancel (n := (ofBlock m address).last) (m := 1), last_ofBlock hlt]
    rfl
  have hcount : ((ofBlock m address).last - address + 1) / 2 = (blockAt m address).length / 2 := by
    have := last_ofBlock hlt
    omega
  have hwords : (List.range' address ((blockAt m address).length / 2) 2).mapM m.wordAt =
      .ok (wordsOf (blockAt m address)) := by
    refine mapM_wordAt fun k b hb => ?_
    have hk := (List.getElem?_eq_some_iff.mp hb).1
    rw [getElem?_blockAt (by omega)] at hb
    exact hb
  show ((List.range' address ((min (address + span) m.size - 1 - address + 1) / 2) 2).mapM
    m.wordAt).map _ = _
  rw [hlast, hcount, hwords]
  rfl

/-- The rows of what remains of memory begin at every sixteenth address. -/
theorem ofBlocks_eq_map {entries : List UInt8} (hentries : entries = m.bytes.toList.drop address) :
    ofBlocks address (blocks span entries) =
      (List.range' address ((entries.length + span - 1) / span) span).map (ofBlock m) := by
  fun_induction blocks span entries generalizing address with
  | case1 entries h =>
    have hnil : entries = [] := h.resolve_right (by decide)
    rw [hnil]
    rfl
  | case2 entries h ih =>
    have hpos : 0 < entries.length := List.length_pos_iff.mpr fun hnil => h (.inl hnil)
    have hdrop : entries.drop span = m.bytes.toList.drop (address + span) := by
      rw [hentries, List.drop_drop]
    have hcount : (entries.length + span - 1) / span =
        ((entries.drop span).length + span - 1) / span + 1 := by
      rw [List.length_drop, span]
      omega
    have hblock : entries.take span = blockAt m address := by rw [hentries, blockAt]
    have hrest := ih hdrop
    rw [ofBlocks, hcount, List.range'_succ, List.map_cons, ← hrest, hblock]
    refine congrArg (ofBlock m address :: ·) ?_
    by_cases hfull : span ≤ entries.length
    · have hlen : (blockAt m address).length = span := by
        rw [← hblock, List.length_take, Nat.min_eq_left hfull]
      rw [hlen]
    · rw [List.drop_eq_nil_of_le (Nat.le_of_not_le hfull), blocks_nil]
      rfl

/-! ### The pass -/

/-- Merging makes a row of zeros begin earlier, and never one that has words. -/
theorem isBlank_head_cons (r : MemoryRow) (rest : List MemoryRow) :
    ∃ next later, cons r rest = next :: later ∧ next.first = r.first ∧ next.isBlank = r.isBlank := by
  cases rest with
  | nil => exact ⟨r, [], rfl, rfl, rfl⟩
  | cons next rest =>
    rw [cons]
    split
    · next hboth =>
      obtain ⟨hblank, hblank'⟩ := Bool.and_eq_true_iff.mp hboth
      exact ⟨{ next with first := r.first }, rest, rfl, rfl, hblank'.trans hblank.symm⟩
    · exact ⟨r, next :: rest, rfl, rfl, rfl⟩

theorem cons_of_blank (hblank : r.isBlank = true) (hblank' : last.isBlank = true) :
    cons last (r :: rest) = { r with first := last.first } :: rest := by
  rw [cons, hblank, hblank']
  rfl

theorem cons_of_not (hnot : ¬ (last.isBlank = true ∧ r.isBlank = true)) :
    cons last (r :: rest) = last :: r :: rest := by
  rw [cons, if_neg]
  rwa [Bool.and_eq_true]

/-- Two rows of zeros can be merged with each other first, or with what is behind them. -/
theorem cons_cons_of_blank (hblank : r.isBlank = true) (hblank' : last.isBlank = true)
    (behind : List MemoryRow) :
    cons { r with first := last.first } behind = cons last (cons r behind) := by
  cases behind with
  | nil => exact (cons_of_blank hblank hblank').symm
  | cons next rest =>
    cases hnext : next.isBlank with
    | true =>
      have hmerged : ({ next with first := r.first } : MemoryRow).isBlank = true := hnext
      have hjoined : ({ r with first := last.first } : MemoryRow).isBlank = true := hblank
      rw [cons_of_blank hnext hblank, cons_of_blank hmerged hblank', cons_of_blank hnext hjoined]
    | false =>
      have hnot : ∀ row : MemoryRow, ¬ (row.isBlank = true ∧ next.isBlank = true) := by
        simp [hnext]
      rw [cons_of_not (hnot r), cons_of_blank hblank hblank', cons_of_not (hnot _)]

/-- The rows so far, and behind the last of them rows that it may still be merged with. -/
def extend (rows behind : List MemoryRow) : List MemoryRow :=
  match rows with
  | [] => behind
  | last :: earlier => earlier.reverse ++ cons last behind

/-- A row that is pushed could as well have been merged with what is behind it. -/
theorem extend_push (rows behind : List MemoryRow) (r : MemoryRow) :
    extend (push rows r) behind = extend rows (cons r behind) := by
  cases rows with
  | nil => rfl
  | cons last earlier =>
    rw [push]
    split
    · next hboth =>
      obtain ⟨hblank', hblank⟩ := Bool.and_eq_true_iff.mp hboth
      rw [extend, extend, cons_cons_of_blank hblank hblank']
    · next hnot =>
      rw [Bool.and_eq_true] at hnot
      obtain ⟨next, later, hcons, -, hsame⟩ := isBlank_head_cons r behind
      rw [← hsame] at hnot
      rw [extend, extend, hcons, cons_of_not hnot, List.reverse_cons, List.append_assoc]
      rfl

/-- Pushing one row after the other merges them. -/
theorem reverse_foldl_push (rows : List MemoryRow) : (rows.foldl push []).reverse = merge rows := by
  have hextend : ∀ (rows earlier : List MemoryRow),
      extend (rows.foldl push earlier) [] = extend earlier (merge rows) := by
    intro rows
    induction rows with
    | nil => exact fun earlier => rfl
    | cons r rest ih =>
      intro earlier
      rw [List.foldl_cons, ih, extend_push]
      rfl
  have hall := hextend rows []
  cases hpushed : rows.foldl push [] with
  | nil =>
    rw [hpushed] at hall
    exact hall
  | cons last earlier =>
    rw [hpushed] at hall
    rw [List.reverse_cons]
    exact hall

theorem foldlM_read {firsts : List Nat} (hfirsts : ∀ first ∈ firsts, first < m.size)
    (rows : List MemoryRow) :
    firsts.foldlM (fun rows first => (read m first).map (push rows)) rows =
      .ok ((firsts.map (ofBlock m)).foldl push rows) := by
  induction firsts generalizing rows with
  | nil => rfl
  | cons first rest ih =>
    obtain ⟨hfirst, hrest⟩ := List.forall_mem_cons.mp hfirsts
    rw [List.foldlM_cons, read_eq hfirst, List.map_cons, List.foldl_cons, ← ih hrest]
    rfl

/-- No word that the pass reads is missing, and it makes the rows that are written into a dump. -/
theorem print_eq (m : Memory) : print m = .ok (ofBytes m.bytes.toList) := by
  have hfirsts : ∀ first ∈ List.range' 0 ((m.size + span - 1) / span) span, first < m.size := by
    intro first hfirst
    obtain ⟨k, hk, rfl⟩ := List.mem_range'.mp hfirst
    rw [span] at hk ⊢
    omega
  have hrows : ofBlocks 0 (blocks span m.bytes.toList) =
      (List.range' 0 ((m.size + span - 1) / span) span).map (ofBlock m) := ofBlocks_eq_map rfl
  rw [print, foldlM_read hfirsts, ofBytes, hrows, ← reverse_foldl_push]
  rfl

/-! ### The rows that are printed -/

theorem isFiller_iff (r : MemoryRow) : r.IsFiller ↔ r.isBlank = true := by
  rw [IsFiller, Dump.memoryLine]
  constructor
  · intro hline
    by_contra hwords
    rw [if_neg hwords] at hline
    exact Dump.filler_ne_numberRow _ (Dump.range_append_inj hline.symm).2.2
  · intro hblank
    rw [if_pos hblank]

/-- The rows of an even number of bytes cover all of them in order, a block each, with the runs of zeros
as single rows. -/
theorem prints_listing (m : Memory) (heven : m.size % 2 = 0) :
    IsListing m (ofBytes m.bytes.toList) := by
  have hlists := lists_ofBytes heven
  have hdescribes := hlists.describes
  refine ⟨print_eq m, ?_, fun r hr => (hdescribes r hr).le, ?_, ?_, ?_, ?_⟩
  · rw [hlists.addresses_eq, Nat.sub_zero, List.range_eq_range']
  · exact fun r hr => (isFiller_iff r).trans (hdescribes r hr).isBlank_iff
  · intro r hr hbyte
    have hwords : r.isBlank = false := by
      rw [← (hdescribes r hr).isBlank_iff] at hbyte
      exact Bool.not_eq_true _ ▸ hbyte
    refine ⟨(hdescribes r hr).listsBlock hwords, ?_⟩
    rw [Dump.memoryLine, hwords]
    rfl
  · intro i j hrun
    obtain ⟨r, hr, hblank, hstart, hend⟩ := hlists.filter_meets hrun (Nat.zero_le _)
    exact ⟨r, hr, (isFiller_iff r).mpr hblank, hstart, hend⟩
  · simp only [isFiller_iff]
    exact hlists.isChain

/-- Two blocks of zeros, a block that begins with a word, and a short block of zeros. -/
def patchwork : Memory :=
  ⟨Array.replicate 32 0 ++ #[0x12, 0x34] ++ Array.replicate 18 0⟩

theorem prints_listing_patchwork : patchwork.size % 2 = 0 ∧
    IsListing patchwork (ofBytes patchwork.bytes.toList) ∧ patchwork.ZeroRun 0 1 ∧
    ¬ patchwork.ZeroBetween 32 48 ∧ patchwork.ZeroRun 3 3 := by
  refine ⟨by decide, prints_listing patchwork (by decide), ?_, by decide, ?_⟩
  · exact ⟨by decide, by decide, by decide, fun h hh => (Nat.succ_ne_zero h hh).elim, by decide⟩
  · refine ⟨by decide, by decide, by decide, fun h hh => ?_, fun hinside => ?_⟩
    · cases hh
      decide
    · exact absurd hinside (by decide)

end Chip8.MemoryRow
