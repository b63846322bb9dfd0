import Chip8.Screen

/-!
# Well-formed screens

A screen is well-formed if it has at least one row and one column, and just the cells that these
make up. New screens are, and so is every screen of the same size as a well-formed one
(`Screen.WellFormed.of_sameSize`). The places on such a screen all have a cell
(`Screen.cellNumber_lt`).
-/

namespace Chip8.Screen

/-- There is a row and a column, and just the cells of the rows and columns. -/
structure WellFormed (s : Screen) : Prop where
  rows_pos : 0 < s.rows
  cols_pos : 0 < s.cols
  size_cells : s.cells.size = s.rows * s.cols

/-- Two screens have the same rows, columns and number of cells. -/
structure SameSize (s s' : Screen) : Prop where
  rows_eq : s'.rows = s.rows
  cols_eq : s'.cols = s.cols
  size_eq : s'.cells.size = s.cells.size

theorem SameSize.refl (s : Screen) : SameSize s s := ⟨rfl, rfl, rfl⟩

theorem SameSize.trans {s s' s'' : Screen} (h : SameSize s s') (h' : SameSize s' s'') :
    SameSize s s'' :=
  ⟨h'.rows_eq.trans h.rows_eq, h'.cols_eq.trans h.cols_eq, h'.size_eq.trans h.size_eq⟩

theorem WellFormed.of_sameSize {s s' : Screen} (h : s.WellFormed) (hs : SameSize s s') :
    s'.WellFormed where
  rows_pos := by
    rw [hs.rows_eq]
    exact h.rows_pos
  cols_pos := by
    rw [hs.cols_eq]
    exact h.cols_pos
  size_cells := by
    rw [hs.size_eq, hs.rows_eq, hs.cols_eq]
    exact h.size_cells

/-! ### Screens without lit cells -/

theorem wellFormed_blank (rows cols : Nat) : (blank rows cols).WellFormed where
  rows_pos := Nat.lt_of_lt_of_le Nat.one_pos (Nat.le_max_right rows 1)
  cols_pos := Nat.lt_of_lt_of_le Nat.one_pos (Nat.le_max_right cols 1)
  size_cells := size_blank rows cols

theorem sameSize_clear {s : Screen} (h : s.WellFormed) : SameSize s s.clear :=
  ⟨rfl, rfl, s.size_clear.trans h.size_cells.symm⟩

/-- A screen that can be made is well-formed, and can be stored. -/
theorem wellFormed_of_create {rows cols : Nat} {s : Screen} (h : create rows cols = .ok s) :
    s.WellFormed ∧ s.rows * s.cols ≤ storageLimit := by
  have hs : s = blank rows cols := eq_blank_of_create h
  refine ⟨by rw [hs]; exact wellFormed_blank rows cols, ?_⟩
  rw [create, checkStorage] at h
  split at h
  · next hfits =>
    rw [hs]
    exact hfits
  · cases h

/-! ### Places on a screen -/

/-- The cells of a row lie one after the other, and all of them before the next row. -/
theorem cellNumber_lt {s : Screen} (h : s.WellFormed) {x y : Nat} (hx : x < s.cols)
    (hy : y < s.rows) : s.cellNumber x y < s.cells.size := by
  have hrow : (y + 1) * s.cols ≤ s.rows * s.cols := Nat.mul_le_mul_right _ hy
  rw [Nat.succ_mul] at hrow
  rw [h.size_cells]
  rw [cellNumber]
  omega

/-- A coordinate inside the grid stays where it is. -/
theorem pullIn_of_lt {n span : Nat} (h : n < span) : pullIn n span = n := by
  rw [pullIn]
  rw [if_neg (by omega), if_neg (by omega)]

end Chip8.Screen
