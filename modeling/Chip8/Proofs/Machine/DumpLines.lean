import Chip8.Machine.Dump
import Chip8.Proofs.Text.Hexadecimal
import Mathlib.Data.List.Basic

/-!
# Reading the lines of a dump

Each kind of line in a dump can be read back: a row of numbers (`Dump.numberRow_inj`), the rows of a
table (`Dump.table_inj`), and a row of the memory listing, which tells the addresses that it covers and,
unless it stands for zeros, its words (`Dump.memoryLine_inj`). No line has a line break in it, so a text
can be cut into its lines again (`Dump.lines_inj`).
-/

namespace Chip8.Dump

open Hexadecimal

variable {α : Type} {a b a' b' n : Nat} {numbers numbers' : List Nat} {flags flags' : List Bool}

/-! ### Rows -/

theorem toList_numberRow_cons (n : Nat) (rest : List Nat) :
    (numberRow (n :: rest)).toList = ' ' :: ((padded n).toList ++ (numberRow rest).toList) := by
  simp [numberRow]

theorem apart_numberRow (numbers : List Nat) : Apart (numberRow numbers).toList := by
  intro c hc
  cases numbers with
  | nil => cases hc
  | cons n rest =>
    rw [toList_numberRow_cons] at hc
    cases hc
    rfl

/-- Numbers are read as they were written in a row. -/
theorem numberRow_inj (h : numberRow numbers = numberRow numbers') : numbers = numbers' := by
  induction numbers generalizing numbers' with
  | nil =>
    cases numbers' with
    | nil => rfl
    | cons n' rest' =>
      have hchars := congrArg String.toList h
      rw [toList_numberRow_cons] at hchars
      cases hchars
  | cons n rest ih =>
    have hchars := congrArg String.toList h
    cases numbers' with
    | nil =>
      rw [toList_numberRow_cons] at hchars
      cases hchars
    | cons n' rest' =>
      rw [toList_numberRow_cons, toList_numberRow_cons] at hchars
      obtain ⟨hfirst, hrest⟩ :=
        padded_append_inj (apart_numberRow rest) (apart_numberRow rest') (List.cons.inj hchars).2
      rw [hfirst, ih (String.toList_inj.mp hrest)]

theorem toList_flagCell (b : Bool) : (flagCell b).toList =
    if b then ['t', 'r', 'u', 'e', ' ', ' '] else ['f', 'a', 'l', 's', 'e', ' '] := by
  cases b <;> simp [flagCell]

theorem toList_flagRow_cons_cons (b c : Bool) (rest : List Bool) :
    (flagRow (b :: c :: rest)).toList =
      ' ' :: ((flagCell b).toList ++ (flagRow (c :: rest)).toList) := by
  have hrow : flagRow (b :: c :: rest) = " " ++ flagCell b ++ flagRow (c :: rest) := by
    rw [flagRow]
    exact fun hnil => List.cons_ne_nil c rest hnil
  simp [hrow]

/-- Truth values are read as they were written in a row, if one knows how many they are. -/
theorem flagRow_inj (hlen : flags.length = flags'.length) (h : flagRow flags = flagRow flags') :
    flags = flags' := by
  induction flags generalizing flags' with
  | nil => exact (List.eq_nil_of_length_eq_zero hlen.symm).symm
  | cons b rest ih =>
    cases flags' with
    | nil => cases hlen
    | cons b' rest' =>
      have hrests : rest.length = rest'.length := Nat.succ.inj hlen
      cases rest with
      | nil =>
        cases List.eq_nil_of_length_eq_zero hrests.symm
        revert h
        cases b <;> cases b' <;> simp [flagRow]
      | cons c rest =>
        cases rest' with
        | nil => cases hrests
        | cons c' rest' =>
          have hchars := congrArg String.toList h
          rw [toList_flagRow_cons_cons, toList_flagRow_cons_cons] at hchars
          have hwidth : (flagCell b).toList.length = (flagCell b').toList.length := by
            rw [toList_flagCell, toList_flagCell]
            cases b <;> cases b' <;> rfl
          obtain ⟨hcell, htail⟩ := List.append_inj (List.cons.inj hchars).2 hwidth
          have hflag : b = b' := by
            rw [toList_flagCell, toList_flagCell] at hcell
            revert hcell
            cases b <;> cases b' <;> decide
          rw [hflag, ih hrests (String.toList_inj.mp htail)]

/-! ### Ranges -/

theorem toList_range (a b : Nat) : (range a b).toList =
    (padded a).toList ++ (' ' :: '-' :: ' ' :: ((padded b).toList ++ [' ', ':'])) := by
  rw [range, String.toList_append, String.toList_append, String.toList_append]
  simp

/-- What begins a line of a section and what follows can be told from each other. -/
theorem range_append_inj {rest rest' : String}
    (h : indent ++ range a b ++ rest = indent ++ range a' b' ++ rest') :
    a = a' ∧ b = b' ∧ rest = rest' := by
  have hchars := congrArg String.toList h
  simp only [String.toList_append, toList_range, List.append_assoc, List.cons_append,
    List.nil_append] at hchars
  have hblank : ∀ text : List Char, Apart (' ' :: text) := by
    intro text c hc
    cases hc
    rfl
  obtain ⟨hfirst, hchars⟩ :=
    padded_append_inj (hblank _) (hblank _) (List.append_cancel_left hchars)
  injection hchars with _ hchars
  injection hchars with _ hchars
  injection hchars with _ hchars
  obtain ⟨hlast, hchars⟩ := padded_append_inj (hblank _) (hblank _) hchars
  injection hchars with _ hchars
  injection hchars with _ hchars
  exact ⟨hfirst, hlast, String.toList_inj.mp hchars⟩

/-! ### Tables -/

theorem getElem?_table (write : List α → String) (values : List α) (k : Nat) :
    (table write values)[k]? = (blocks rowLength values)[k]?.map fun row =>
      indent ++ range (k * rowLength) (k * rowLength + row.length - 1) ++ write row := by
  rw [table, List.getElem?_map, List.getElem?_zipIdx, Option.map_map]
  simp only [Nat.zero_add]
  rfl

theorem length_table {write : List α → String} {values : List α} (hlen : values.length = n * rowLength) :
    (table write values).length = n := by
  rw [table, List.length_map, List.length_zipIdx, length_blocks (by decide) hlen]

/-- As many values are read from a table as it was made of, if its rows can be read. -/
theorem table_inj {write : List α → String} {values values' : List α}
    (hwrite : ∀ {row row' : List α}, row.length = row'.length → write row = write row' → row = row')
    (hlen : values.length = values'.length) (h : table write values = table write values') :
    values = values' := by
  have hblocks : blocks rowLength values = blocks rowLength values' := by
    refine List.ext_getElem? fun k => ?_
    have hline : (table write values)[k]? = (table write values')[k]? := by rw [h]
    rw [getElem?_table, getElem?_table, getElem?_blocks (by decide), getElem?_blocks (by decide),
      hlen] at hline
    rw [getElem?_blocks (by decide), getElem?_blocks (by decide), hlen]
    split
    · next hinside =>
      rw [if_pos hinside, if_pos hinside] at hline
      refine congrArg some (hwrite ?_ (range_append_inj (Option.some.inj hline)).2.2)
      rw [List.length_take, List.length_take, List.length_drop, List.length_drop, hlen]
    · rfl
  rw [← flatten_blocks (by decide : rowLength ≠ 0) values, hblocks, flatten_blocks (by decide)]

/-! ### Sections -/

variable {title : String} {lines lines' rest rest' : List String}

/-- A section and what follows can be told from each other, if one knows how many lines it has. -/
theorem titled_append_inj (h : titled title lines ++ rest = titled title lines' ++ rest')
    (hlen : lines.length = lines'.length) : lines = lines' ∧ rest = rest' := by
  obtain ⟨hsection, hrest⟩ := List.append_inj h (congrArg Nat.succ hlen)
  exact ⟨(List.cons.inj hsection).2, hrest⟩

theorem titled_single_append_inj {n n' : Nat}
    (h : titled title (single n) ++ rest = titled title (single n') ++ rest') :
    n = n' ∧ rest = rest' := by
  obtain ⟨hlines, hrest⟩ := titled_append_inj h rfl
  have hchars := congrArg String.toList (List.cons.inj hlines).1
  rw [String.toList_append, String.toList_append] at hchars
  exact ⟨padded_inj (String.toList_inj.mp (List.append_cancel_left hchars)), hrest⟩

theorem titled_table_append_inj {write : List α → String} {values values' : List α}
    (hwrite : ∀ {row row' : List α}, row.length = row'.length → write row = write row' → row = row')
    (hlen : values.length = n * rowLength) (hlen' : values'.length = n * rowLength)
    (h : titled title (table write values) ++ rest = titled title (table write values') ++ rest') :
    values = values' ∧ rest = rest' := by
  obtain ⟨hlines, hrest⟩ :=
    titled_append_inj h ((length_table hlen).trans (length_table hlen').symm)
  exact ⟨table_inj hwrite (hlen.trans hlen'.symm) hlines, hrest⟩

/-! ### Rows of the memory listing -/

/-- No row of numbers looks like a row of zeros. -/
theorem filler_ne_numberRow (numbers : List Nat) : " " ++ filler ≠ numberRow numbers := by
  intro h
  have hdot : '.' ∈ (numberRow numbers).toList := by
    rw [← h]
    simp [filler]
  clear h
  induction numbers with
  | nil => cases hdot
  | cons n rest ih =>
    rw [toList_numberRow_cons, List.mem_cons, List.mem_append] at hdot
    rcases hdot with hblank | hnumber | hrest
    · exact absurd hblank (by decide)
    · exact absurd (isAlphanum_of_mem_padded hnumber) (by decide)
    · exact ih hrest

/-- The line of a row tells what the row covers, whether it has nothing but zeros, and its words if it
has others. -/
theorem memoryLine_inj {r r' : MemoryRow} (h : memoryLine r = memoryLine r') :
    r.first = r'.first ∧ r.last = r'.last ∧ r.isBlank = r'.isBlank ∧
      (r.isBlank = false → r.words = r'.words) := by
  obtain ⟨hfirst, hlast, hrow⟩ := range_append_inj h
  refine ⟨hfirst, hlast, ?_⟩
  cases hblank : r.isBlank with
  | true =>
    rw [if_pos hblank] at hrow
    cases hblank' : r'.isBlank with
    | true => exact ⟨rfl, fun hwords => absurd hwords (by decide)⟩
    | false =>
      rw [if_neg (Bool.not_eq_true _ ▸ hblank')] at hrow
      exact (filler_ne_numberRow _ hrow).elim
  | false =>
    rw [if_neg (Bool.not_eq_true _ ▸ hblank)] at hrow
    cases hblank' : r'.isBlank with
    | true =>
      rw [if_pos hblank'] at hrow
      exact (filler_ne_numberRow _ hrow.symm).elim
    | false =>
      rw [if_neg (Bool.not_eq_true _ ▸ hblank')] at hrow
      refine ⟨rfl, fun _ => ?_⟩
      exact List.map_injective_iff.mpr (fun _ _ => UInt16.toNat_inj.mp) (numberRow_inj hrow)

/-! ### The lines of a text -/

/-- There is no line break in a text. -/
def OneLine (text : String) : Prop := '\n' ∉ text.toList

theorem OneLine.append {text text' : String} (h : OneLine text) (h' : OneLine text') :
    OneLine (text ++ text') := by
  intro hmem
  rw [String.toList_append, List.mem_append] at hmem
  exact hmem.elim h h'

theorem oneLine_padded (n : Nat) : OneLine (padded n) :=
  fun hmem => absurd (isAlphanum_of_mem_padded hmem) (by decide)

theorem oneLine_range (a b : Nat) : OneLine (indent ++ range a b) := by
  have hdash : OneLine " - " := by simp [OneLine]
  have hcolon : OneLine " :" := by simp [OneLine]
  have hindent : OneLine indent := by simp [OneLine, indent]
  exact hindent.append ((((oneLine_padded a).append hdash).append (oneLine_padded b)).append hcolon)

theorem oneLine_numberRow (numbers : List Nat) : OneLine (numberRow numbers) := by
  have hblank : OneLine " " := by simp [OneLine]
  induction numbers with
  | nil => exact List.not_mem_nil
  | cons n rest ih => exact (hblank.append (oneLine_padded n)).append ih

theorem oneLine_flagRow (flags : List Bool) : OneLine (flagRow flags) := by
  fun_induction flagRow flags with
  | case1 => exact List.not_mem_nil
  | case2 b => cases b <;> simp [OneLine]
  | case3 b rest hmore ih =>
    have hcell : OneLine (" " ++ flagCell b) := by cases b <;> simp [OneLine, flagCell]
    exact hcell.append ih

theorem oneLine_single (n : Nat) : ∀ line ∈ single n, OneLine line := by
  have hindent : OneLine indent := by simp [OneLine, indent]
  exact List.forall_mem_singleton.mpr (hindent.append (oneLine_padded n))

theorem oneLine_table {write : List α → String} (hwrite : ∀ row, OneLine (write row))
    (values : List α) : ∀ line ∈ table write values, OneLine line := by
  intro line hline
  obtain ⟨⟨row, number⟩, hrow, rfl⟩ := List.mem_map.mp hline
  exact (oneLine_range _ _).append (hwrite row)

theorem oneLine_memoryLine (r : MemoryRow) : OneLine (memoryLine r) := by
  refine (oneLine_range r.first r.last).append ?_
  split
  · have hzero : '\n' ∉ (padded 0).toList := oneLine_padded 0
    simp [OneLine, filler, hzero]
  · exact oneLine_numberRow _

theorem oneLine_titled {title : String} {lines : List String} (htitle : OneLine title)
    (hlines : ∀ line ∈ lines, OneLine line) : ∀ line ∈ titled title lines, OneLine line := by
  have htab : OneLine "\t" := by simp [OneLine]
  have hcolon : OneLine " :" := by simp [OneLine]
  exact List.forall_mem_cons.mpr ⟨(htab.append htitle).append hcolon, hlines⟩

/-- A text that was put together from lines can be cut into these again. -/
theorem lines_inj {lines lines' : List String} (hne : lines ≠ []) (hne' : lines' ≠ [])
    (hlines : ∀ line ∈ lines, OneLine line) (hlines' : ∀ line ∈ lines', OneLine line)
    (h : "\n".intercalate lines = "\n".intercalate lines') : lines = lines' := by
  have hsplit : ∀ {lines : List String}, lines ≠ [] → (∀ line ∈ lines, OneLine line) →
      ("\n".intercalate lines).toList.splitOn '\n' = lines.map String.toList := by
    intro lines hne hlines
    rw [String.toList_intercalate]
    refine List.splitOn_intercalate '\n' (fun line hline => ?_) (by simpa using hne)
    obtain ⟨text, htext, rfl⟩ := List.mem_map.mp hline
    exact hlines text htext
  have hchars := hsplit hne hlines
  rw [h, hsplit hne' hlines'] at hchars
  exact (List.map_injective_iff.mpr (fun _ _ => String.toList_inj.mp) hchars).symm

end Chip8.Dump
