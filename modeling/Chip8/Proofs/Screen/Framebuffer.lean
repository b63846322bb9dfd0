import Chip8.Proofs.Screen.Toggling
import Mathlib.Data.List.Induction

/-!
# What a screen shows after any number of edits

A screen is edited by switching all its cells off and by inverting single cells. `Screen.strokes` reads
off the edits how often a cell has been inverted since all were last switched off; coordinates up to one
span outside the grid count for the cell that they are congruent to. A cell of the screen is lit just if
that is an odd number (`Screen.counts_strokes`), and the rows of the screen list its cells.
-/

namespace Chip8.Screen

/-- What is done to a screen. -/
inductive Edit where
  /-- All cells are switched off. -/
  | clear
  /-- The cell in column `x` of row `y` is inverted. -/
  | toggle (x y : Int)
  deriving DecidableEq, Repr

/-- A screen after an edit. -/
def edit (s : Screen) : Edit → Except Fault Screen
  | .clear => .ok s.clear
  | .toggle x y => (s.toggle x y).map Prod.fst

namespace Edit

/-- The coordinates are less than one span outside a grid of so many rows and columns. -/
def Near (rows cols : Nat) : Edit → Prop
  | .clear => True
  | .toggle x y => (-cols ≤ x ∧ x < 2 * cols) ∧ -rows ≤ y ∧ y < 2 * rows

/-- Is a cell inverted whose coordinates are congruent to column `c` and row `r`? -/
def meets (rows cols c r : Nat) : Edit → Bool
  | .clear => false
  | .toggle x y => x % cols == c % cols && y % rows == r % rows

end Edit

/-- How often the cell in column `c` of row `r` has been inverted since all cells were switched off. -/
def strokes (rows cols : Nat) (edits : List Edit) (c r : Nat) : Nat :=
  (edits.reverse.takeWhile (· ≠ .clear)).countP (Edit.meets rows cols c r)

/-- A cell is lit just if it has been inverted an odd number of times, and the rows list the cells. -/
structure Shows (s : Screen) (edits : List Edit) : Prop where
  size : s.cells.size = s.rows * s.cols
  cell : ∀ c r, c < s.cols → r < s.rows →
    s.get c r = .ok (decide (strokes s.rows s.cols edits c r % 2 = 1))
  length_lines : s.lines.length = s.rows
  line : ∀ r < s.rows, ∃ row, s.lines[r]? = some row ∧ row.length = s.cols ∧
    ∀ c < s.cols, ∃ lit, row[c]? = some lit ∧ s.get c r = .ok lit

/-- Just one cell has changed, and the flag says whether it was switched off. -/
structure InvertsOne (s s' : Screen) (erased : Bool) : Prop where
  size : SameSize s s'
  one : ∃! number : Nat, s'.cells[number]? ≠ s.cells[number]?
  flag : erased = true ↔
    ∃ number : Nat, s.cells[number]? = some true ∧ s'.cells[number]? = some false

variable {s s' : Screen} {rows cols c r : Nat} {x y : Int} {edits : List Edit}

/-! ### Counting -/

theorem strokes_snoc_clear : strokes rows cols (edits ++ [.clear]) c r = 0 := by
  simp [strokes]

theorem strokes_snoc_toggle : strokes rows cols (edits ++ [.toggle x y]) c r =
    strokes rows cols edits c r + if (Edit.toggle x y).meets rows cols c r = true then 1 else 0 := by
  simp [strokes, List.countP_cons]

/-! ### Inverting a cell -/

/-- A coordinate less than one span outside the grid is brought to the congruent one inside. -/
theorem exists_pullIn_eq {value : Int} {span : Nat} (hpos : 0 < span)
    (hnear : -span ≤ value ∧ value < 2 * span) :
    ∃ n : Nat, n < span ∧ value % span = n ∧ pullIn value span = pullIn n span := by
  have hspan : (0 : Int) < span := Int.natCast_pos.mpr hpos
  obtain ⟨n, hn⟩ := Int.eq_ofNat_of_zero_le (Int.emod_nonneg value (Int.ne_of_gt hspan))
  have hlt : n < span := by
    have := Int.emod_lt_of_pos value hspan
    omega
  exact ⟨n, hlt, hn, by rw [pullIn_eq_emod hnear.1 hnear.2, pullIn_of_lt hlt, hn]⟩

theorem toggle_of_near (h : s.WellFormed) (hnear : (Edit.toggle x y).Near s.rows s.cols) :
    ∃ p q, s.Inside (p, q) ∧ x % s.cols = p ∧ y % s.rows = q ∧
      s.toggle x y = .ok ((invert (s, false) (p, q)).1, s.lit p q) := by
  obtain ⟨p, hp, hxp, hpullx⟩ := exists_pullIn_eq h.cols_pos hnear.1
  obtain ⟨q, hq, hyq, hpully⟩ := exists_pullIn_eq h.rows_pos hnear.2
  have hsame : s.toggle x y = s.toggle p q := by rw [toggle, toggle, hpullx, hpully]
  exact ⟨p, q, ⟨hp, hq⟩, hxp, hyq, hsame.trans (toggle_eq_ok h hp hq false)⟩

/-- Inverting a cell changes it and no other. -/
theorem invertsOne_invert {p q : Nat} (h : s.WellFormed) (hplace : s.Inside (p, q)) :
    s.InvertsOne (invert (s, false) (p, q)).1 (s.lit p q) := by
  have hcell : s.cells[s.cellNumber p q]? = some (s.lit p q) :=
    getElem?_cellNumber h hplace.1 hplace.2
  have hself : (invert (s, false) (p, q)).1.cells[s.cellNumber p q]? = some (!s.lit p q) :=
    Array.getElem?_setIfInBounds_self_of_lt (cellNumber_lt h hplace.1 hplace.2)
  have hother : ∀ number : Nat, s.cellNumber p q ≠ number →
      (invert (s, false) (p, q)).1.cells[number]? = s.cells[number]? :=
    fun number hne => Array.getElem?_setIfInBounds_ne hne
  refine ⟨sameSize_invert (s, false) (p, q), ⟨s.cellNumber p q, ?_, ?_⟩, ?_, ?_⟩
  · show (invert (s, false) (p, q)).1.cells[s.cellNumber p q]? ≠ s.cells[s.cellNumber p q]?
    rw [hself, hcell]
    simp
  · intro number hchanged
    by_contra hne
    exact hchanged (hother number (Ne.symm hne))
  · intro hlit
    refine ⟨s.cellNumber p q, ?_, ?_⟩
    · rw [hcell, hlit]
    · rw [hself, hlit]
      rfl
  · intro hoff
    obtain ⟨number, hbefore, hafter⟩ := hoff
    by_cases hsame : s.cellNumber p q = number
    · rw [← hsame, hcell] at hbefore
      exact Option.some.inj hbefore
    · rw [hother number hsame, hbefore] at hafter
      cases hafter

/-! ### Any number of edits -/

theorem edit_near {e : Edit} (h : s.WellFormed) (hnear : e.Near s.rows s.cols) :
    ∃ s', s.edit e = .ok s' ∧ SameSize s s' := by
  cases e with
  | clear => exact ⟨s.clear, rfl, sameSize_clear h⟩
  | toggle x y =>
    obtain ⟨p, q, _, _, _, htoggle⟩ := toggle_of_near h hnear
    exact ⟨_, by rw [edit, htoggle]; rfl, sameSize_invert (s, false) (p, q)⟩

theorem lit_clear (s : Screen) (c r : Nat) : s.clear.lit c r = false := by
  rw [lit, clear, Array.getElem?_replicate]
  split <;> rfl

/-- An edit counts for the cells that it meets. -/
theorem lit_edit {e : Edit} (h : s.WellFormed) (hnear : e.Near s.rows s.cols)
    (hedit : s.edit e = .ok s') (hc : c < s.cols) (hr : r < s.rows)
    (hlit : s.lit c r = decide (strokes s.rows s.cols edits c r % 2 = 1)) :
    s'.lit c r = decide (strokes s.rows s.cols (edits ++ [e]) c r % 2 = 1) := by
  cases e with
  | clear =>
    cases hedit
    rw [lit_clear, strokes_snoc_clear]
    rfl
  | toggle x y =>
    obtain ⟨p, q, hplace, hx, hy, htoggle⟩ := toggle_of_near h hnear
    rw [edit, htoggle] at hedit
    cases hedit
    have hmeets : (Edit.toggle x y).meets s.rows s.cols c r = decide ((p, q) = (c, r)) := by
      rw [Edit.meets, hx, hy, Bool.eq_iff_iff]
      simp only [Bool.and_eq_true, beq_iff_eq, decide_eq_true_eq, Prod.mk.injEq]
      rw [Int.emod_eq_of_lt (by omega) (by omega), Int.emod_eq_of_lt (by omega) (by omega)]
      omega
    have hcell : (invert (s, false) (p, q)).1.lit c r = (s.lit c r ^^ decide ((p, q) = (c, r))) :=
      lit_invert h hplace hc hr
    rw [hcell, strokes_snoc_toggle, hmeets, hlit]
    by_cases hsame : (p, q) = (c, r)
    · rw [if_pos (decide_eq_true hsame), decide_odd_succ, decide_eq_true hsame, Bool.xor_true]
    · rw [if_neg (by rw [decide_eq_true_eq]; exact hsame), decide_eq_false hsame, Bool.xor_false,
        Nat.add_zero]

/-- Edits that stay near go through, and a cell is lit just if it has been inverted oddly often. -/
theorem exists_edited (h : s.WellFormed) (hdark : ∀ c r, s.lit c r = false)
    (hnear : ∀ e ∈ edits, e.Near s.rows s.cols) :
    ∃ s', edits.foldlM edit s = .ok s' ∧ SameSize s s' ∧ ∀ c r, c < s.cols → r < s.rows →
      s'.lit c r = decide (strokes s.rows s.cols edits c r % 2 = 1) := by
  induction edits using List.reverseRecOn with
  | nil => exact ⟨s, rfl, SameSize.refl s, fun c r _ _ => hdark c r⟩
  | append_singleton edits e ih =>
    obtain ⟨before, hbefore, hsize, hlit⟩ :=
      ih fun e he => hnear e (List.mem_append_left _ he)
    have hwell : before.WellFormed := h.of_sameSize hsize
    have hlast : e.Near before.rows before.cols := by
      rw [hsize.rows_eq, hsize.cols_eq]
      exact hnear e (List.mem_append_right _ List.mem_cons_self)
    obtain ⟨s', hedit, hsize'⟩ := edit_near hwell hlast
    refine ⟨s', ?_, hsize.trans hsize', fun c r hc hr => ?_⟩
    · rw [List.foldlM_append, hbefore]
      show [e].foldlM edit before = .ok s'
      rw [List.foldlM_cons, hedit]
      rfl
    · have hbefore' : before.lit c r =
          decide (strokes before.rows before.cols edits c r % 2 = 1) := by
        rw [hsize.rows_eq, hsize.cols_eq]
        exact hlit c r hc hr
      have hcell := lit_edit hwell hlast hedit (hsize.cols_eq ▸ hc) (hsize.rows_eq ▸ hr) hbefore'
      rw [hsize.rows_eq, hsize.cols_eq] at hcell
      exact hcell

/-! ### Rows -/

theorem length_lines (h : s.WellFormed) : s.lines.length = s.rows := by
  rw [lines, Nat.max_eq_left h.cols_pos]
  exact length_blocks (Nat.ne_of_gt h.cols_pos) h.size_cells

/-- The row with a given number lists its cells from left to right. -/
theorem exists_line (h : s.WellFormed) (hr : r < s.rows) :
    ∃ row, s.lines[r]? = some row ∧ row.length = s.cols ∧
      ∀ c < s.cols, row[c]? = some (s.lit c r) := by
  have hrow : r * s.cols + s.cols ≤ s.cells.size := by
    rw [h.size_cells, ← Nat.succ_mul]
    exact Nat.mul_le_mul_right _ hr
  refine ⟨(s.cells.toList.drop (r * s.cols)).take s.cols, ?_, ?_, fun c hc => ?_⟩
  · rw [lines, Nat.max_eq_left h.cols_pos, getElem?_blocks (Nat.ne_of_gt h.cols_pos), if_pos]
    have := h.cols_pos
    rw [Array.length_toList]
    omega
  · rw [List.length_take, List.length_drop, Array.length_toList]
    omega
  · rw [List.getElem?_take_of_lt hc, List.getElem?_drop, Array.getElem?_toList,
      Nat.add_comm]
    exact getElem?_cellNumber h hc hr

/-- However a screen has been edited, its cells are lit just if they were inverted an odd number of
times, its rows list them, and inverting a cell changes no other and says whether it was lit. -/
theorem counts_strokes (hcreate : create rows cols = .ok s)
    (hnear : ∀ e ∈ edits, e.Near s.rows s.cols) :
    ∃ s', edits.foldlM edit s = .ok s' ∧ SameSize s s' ∧ s'.Shows edits ∧
      ∀ x y, (Edit.toggle x y).Near s.rows s.cols →
        ∃ s'' erased, s'.toggle x y = .ok (s'', erased) ∧ s'.InvertsOne s'' erased := by
  have hwell : s.WellFormed := (wellFormed_of_create hcreate).1
  have hdark : ∀ c r, s.lit c r = false := by
    intro c r
    rw [eq_blank_of_create hcreate, lit, blank, Array.getElem?_replicate]
    split <;> rfl
  obtain ⟨s', hrun, hsize, hlit⟩ := exists_edited hwell hdark hnear
  have hwell' : s'.WellFormed := hwell.of_sameSize hsize
  refine ⟨s', hrun, hsize, ⟨hwell'.size_cells, fun c r hc hr => ?_, length_lines hwell', ?_⟩, ?_⟩
  · rw [get_eq_ok hwell' hc hr, hlit c r (hsize.cols_eq ▸ hc) (hsize.rows_eq ▸ hr), hsize.rows_eq,
      hsize.cols_eq]
  · intro r hr
    obtain ⟨row, hrow, hlen, hcells⟩ := exists_line hwell' hr
    exact ⟨row, hrow, hlen, fun c hc => ⟨s'.lit c r, hcells c hc, get_eq_ok hwell' hc hr⟩⟩
  · intro x y hxy
    rw [← hsize.rows_eq, ← hsize.cols_eq] at hxy
    obtain ⟨p, q, hplace, _, _, htoggle⟩ := toggle_of_near hwell' hxy
    exact ⟨_, _, htoggle, invertsOne_invert hwell' hplace⟩

/-- Edits of a screen with two rows and three columns. All of those after the clearing reach the lower
row, two of them the same cell from either side. -/
def eitherSide : List Edit :=
  [.toggle 2 1, .clear, .toggle 4 1, .toggle (-1) 3, .toggle 1 (-1)]

/-- What was met twice is dark again, and the one cell that is left is switched off from afar. -/
theorem counts_strokes_eitherSide :
    create 2 3 = .ok (blank 2 3) ∧ (∀ e ∈ eitherSide, e.Near 2 3) ∧
    ∃ s', eitherSide.foldlM edit (blank 2 3) = .ok s' ∧
      s'.get 1 1 = .ok false ∧ s'.get 2 1 = .ok true ∧ s'.lines.length = 2 ∧
      ∃ s'' erased, s'.toggle 5 (-1) = .ok (s'', erased) ∧ s'.InvertsOne s'' erased := by
  have hcreate : create 2 3 = .ok (blank 2 3) := rfl
  have hnear : ∀ e ∈ eitherSide, e.Near 2 3 := by simp [eitherSide, Edit.Near]
  obtain ⟨s', hrun, hsize, hshows, htoggle⟩ := counts_strokes hcreate hnear
  have hrows : s'.rows = 2 := hsize.rows_eq
  have hcols : s'.cols = 3 := hsize.cols_eq
  have hcell : ∀ c r, c < 3 → r < 2 →
      s'.get c r = .ok (decide (strokes 2 3 eitherSide c r % 2 = 1)) := by
    intro c r hc hr
    have hget := hshows.cell c r (hcols ▸ hc) (hrows ▸ hr)
    rw [hrows, hcols] at hget
    exact hget
  have htwice : strokes 2 3 eitherSide 1 1 % 2 = 0 := by decide
  have honce : strokes 2 3 eitherSide 2 1 % 2 = 1 := by decide
  refine ⟨hcreate, hnear, s', hrun, ?_, ?_, hshows.length_lines.trans hrows, ?_⟩
  · rw [hcell 1 1 (by decide) (by decide), htwice]
    rfl
  · rw [hcell 2 1 (by decide) (by decide), honce]
    rfl
  · exact htoggle 5 (-1) ⟨by decide, by decide⟩

end Chip8.Screen
