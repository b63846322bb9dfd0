import Chip8.Proofs.Screen.WellFormed

/-!
# Inverting cells

Whatever is drawn is drawn by inverting cells one after the other, and remembering whether one of them
was switched off. `Screen.invertAll` does that at a list of places, each given by its column and row.

What comes of it depends on how often each cell was met, and not on the order:

* `Screen.lit_invertAll`: a cell ends inverted if it was met an odd number of times.
* `Screen.erased_invertAll_iff`: a cell was switched off if a lit one was met at all, or a dark one at
  least twice.
* `Screen.invertAll_eq_of_counts`: places that are met equally often, but for pairs, leave the same
  screen.
* `Screen.erased_again`: of two times that the same places are inverted, a cell is switched off at one.
-/

namespace Chip8.Screen

variable {s : Screen} {drawn : Screen × Bool} {place : Nat × Nat} {places : List (Nat × Nat)}
  {x y : Nat}

/-- Is the cell in column `x` of row `y` lit? A cell that does not exist is dark. -/
def lit (s : Screen) (x y : Nat) : Bool := s.cells[s.cellNumber x y]?.getD false

/-- The place, a column and a row, is on the screen. -/
def Inside (s : Screen) (place : Nat × Nat) : Prop := place.1 < s.cols ∧ place.2 < s.rows

/-- Inverts the cell at a place of the screen. The flag says whether a cell has been switched off. -/
def invert (drawn : Screen × Bool) (place : Nat × Nat) : Screen × Bool :=
  ({ drawn.1 with
      cells := drawn.1.cells.setIfInBounds (drawn.1.cellNumber place.1 place.2)
        (!drawn.1.lit place.1 place.2) },
    drawn.2 || drawn.1.lit place.1 place.2)

def invertAll (drawn : Screen × Bool) (places : List (Nat × Nat)) : Screen × Bool :=
  places.foldl invert drawn

/-- A cell that is inverted so many times is switched off at one of them. -/
def SwitchedOff (lit : Bool) (times : Nat) : Prop :=
  if lit = true then 1 ≤ times else 2 ≤ times

/-! ### Places and cells -/

theorem getElem?_cellNumber (h : s.WellFormed) (hx : x < s.cols) (hy : y < s.rows) :
    s.cells[s.cellNumber x y]? = some (s.lit x y) := by
  rw [lit, Array.getElem?_eq_getElem (cellNumber_lt h hx hy)]
  rfl

theorem get_eq_ok (h : s.WellFormed) (hx : x < s.cols) (hy : y < s.rows) :
    s.get x y = .ok (s.lit x y) := by
  rw [get, getElem?_cellNumber h hx hy]

/-- Different places on the screen have different cells. -/
theorem cellNumber_inj {x' y' : Nat} (hx : x < s.cols) (hx' : x' < s.cols)
    (h : s.cellNumber x y = s.cellNumber x' y') : x = x' ∧ y = y' := by
  have hpos : 0 < s.cols := Nat.zero_lt_of_lt hx
  have hcol : x = x' := by
    have hmod := congrArg (· % s.cols) h
    simpa [cellNumber, Nat.mod_eq_of_lt hx, Nat.mod_eq_of_lt hx'] using hmod
  have hrow : y = y' := by
    have hdiv := congrArg (· / s.cols) h
    simpa [cellNumber, Nat.add_mul_div_right _ _ hpos, Nat.div_eq_of_lt hx, Nat.div_eq_of_lt hx']
      using hdiv
  exact ⟨hcol, hrow⟩

theorem sameSize_invert (drawn : Screen × Bool) (place : Nat × Nat) :
    SameSize drawn.1 (invert drawn place).1 :=
  ⟨rfl, rfl, Array.size_setIfInBounds⟩

/-- Toggling the cell at a place of the screen inverts it. -/
theorem toggle_eq_ok (h : s.WellFormed) (hx : x < s.cols) (hy : y < s.rows) (erased : Bool) :
    s.toggle x y = .ok ((invert (s, erased) (x, y)).1, s.lit x y) := by
  rw [toggle]
  rw [pullIn_of_lt hx, pullIn_of_lt hy, if_pos ⟨Int.natCast_nonneg x, Int.natCast_nonneg y⟩]
  show s.toggleCell (s.cellNumber x y) = _
  rw [toggleCell, getElem?_cellNumber h hx hy]
  rfl

theorem lit_invert (hwell : drawn.1.WellFormed) (hplace : drawn.1.Inside place)
    (hx : x < drawn.1.cols) (hy : y < drawn.1.rows) :
    (invert drawn place).1.lit x y = (drawn.1.lit x y ^^ decide (place = (x, y))) := by
  obtain ⟨a, b⟩ := place
  have hcell : drawn.1.cellNumber a b < drawn.1.cells.size := cellNumber_lt hwell hplace.1 hplace.2
  show ((drawn.1.cells.setIfInBounds (drawn.1.cellNumber a b) _)[drawn.1.cellNumber x y]?).getD false
    = _
  by_cases hsame : (a, b) = (x, y)
  · cases hsame
    rw [Array.getElem?_setIfInBounds_self_of_lt hcell]
    simp
  · have hne : drawn.1.cellNumber a b ≠ drawn.1.cellNumber x y := by
      intro heq
      obtain ⟨rfl, rfl⟩ := cellNumber_inj hplace.1 hx heq
      exact hsame rfl
    rw [Array.getElem?_setIfInBounds_ne hne]
    simp [hsame, lit]

/-! ### Inverting one cell after the other -/

theorem sameSize_invertAll (drawn : Screen × Bool) (places : List (Nat × Nat)) :
    SameSize drawn.1 (invertAll drawn places).1 := by
  induction places generalizing drawn with
  | nil => exact SameSize.refl drawn.1
  | cons place rest ih => exact (sameSize_invert drawn place).trans (ih (invert drawn place))

theorem Inside.of_sameSize {s' : Screen} (h : s.Inside place) (hs : SameSize s s') :
    s'.Inside place := by
  rw [Inside, hs.cols_eq, hs.rows_eq]
  exact h

theorem decide_odd_succ (n : Nat) : decide ((n + 1) % 2 = 1) = !decide (n % 2 = 1) := by
  have hsucc : (n + 1) % 2 = 1 ↔ ¬ n % 2 = 1 := by omega
  rw [decide_eq_decide.mpr hsucc, decide_not]

/-- A cell ends inverted if it was met an odd number of times. -/
theorem lit_invertAll (hwell : drawn.1.WellFormed) (hplaces : ∀ place ∈ places, drawn.1.Inside place)
    (hx : x < drawn.1.cols) (hy : y < drawn.1.rows) :
    (invertAll drawn places).1.lit x y =
      (drawn.1.lit x y ^^ decide (places.count (x, y) % 2 = 1)) := by
  induction places generalizing drawn with
  | nil => simp [invertAll]
  | cons place rest ih =>
    have hsize := sameSize_invert drawn place
    have hrest : ∀ later ∈ rest, (invert drawn place).1.Inside later := by
      intro later hlater
      exact (hplaces later (List.mem_cons_of_mem _ hlater)).of_sameSize hsize
    have hplace := hplaces place List.mem_cons_self
    show (invertAll (invert drawn place) rest).1.lit x y = _
    rw [ih (hwell.of_sameSize hsize) hrest (hsize.cols_eq ▸ hx) (hsize.rows_eq ▸ hy),
      lit_invert hwell hplace hx hy, List.count_cons, Bool.xor_assoc]
    by_cases hmet : place = (x, y)
    · rw [hmet, beq_self_eq_true, if_pos rfl, decide_odd_succ, decide_eq_true rfl, Bool.true_xor]
    · simp [hmet]

/-- The first time a lit cell is met it is switched off, and a dark one is switched on. -/
theorem switchedOff_succ (lit : Bool) (times : Nat) :
    SwitchedOff lit (times + 1) ↔ lit = true ∨ SwitchedOff (!lit) times := by
  cases lit with
  | true => simp [SwitchedOff]
  | false => simp [SwitchedOff]

/-- A cell is switched off if a lit one is met at all, or a dark one twice. -/
theorem erased_invertAll_iff (hwell : drawn.1.WellFormed)
    (hplaces : ∀ place ∈ places, drawn.1.Inside place) :
    (invertAll drawn places).2 = true ↔ drawn.2 = true ∨
      ∃ x y, x < drawn.1.cols ∧ y < drawn.1.rows ∧
        SwitchedOff (drawn.1.lit x y) (places.count (x, y)) := by
  induction places generalizing drawn with
  | nil =>
    have hnone : ∀ x y, ¬ SwitchedOff (drawn.1.lit x y) 0 := by
      intro x y
      rw [SwitchedOff]
      split <;> omega
    simp [invertAll, hnone]
  | cons place rest ih =>
    obtain ⟨a, b⟩ := place
    have hplace : drawn.1.Inside (a, b) := hplaces (a, b) List.mem_cons_self
    have hsize := sameSize_invert drawn (a, b)
    have hrest : ∀ later ∈ rest, (invert drawn (a, b)).1.Inside later := by
      intro later hlater
      exact (hplaces later (List.mem_cons_of_mem _ hlater)).of_sameSize hsize
    show (invertAll (invert drawn (a, b)) rest).2 = true ↔ _
    rw [ih (hwell.of_sameSize hsize) hrest]
    show (drawn.2 || drawn.1.lit a b) = true ∨ (∃ x y, x < drawn.1.cols ∧ y < drawn.1.rows ∧ _) ↔ _
    -- the cell that is met first counts one more, and all the others are as they were
    have hother : ∀ x y, x < drawn.1.cols → y < drawn.1.rows → (a, b) ≠ (x, y) →
        (SwitchedOff ((invert drawn (a, b)).1.lit x y) (rest.count (x, y)) ↔
          SwitchedOff (drawn.1.lit x y) (((a, b) :: rest).count (x, y))) := by
      intro x y hx hy hne
      rw [lit_invert hwell hplace hx hy, List.count_cons]
      simp [hne]
    have hmet : SwitchedOff (drawn.1.lit a b) (((a, b) :: rest).count (a, b)) ↔
        drawn.1.lit a b = true ∨
          SwitchedOff ((invert drawn (a, b)).1.lit a b) (rest.count (a, b)) := by
      rw [lit_invert hwell hplace hplace.1 hplace.2, List.count_cons_self, switchedOff_succ]
      simp
    constructor
    · intro h
      rcases h with hflag | ⟨x, y, hx, hy, hoff⟩
      · rcases Bool.or_eq_true_iff.mp hflag with hflag | hlit
        · exact .inl hflag
        · exact .inr ⟨a, b, hplace.1, hplace.2, hmet.mpr (.inl hlit)⟩
      · by_cases hsame : (a, b) = (x, y)
        · cases hsame
          exact .inr ⟨a, b, hx, hy, hmet.mpr (.inr hoff)⟩
        · exact .inr ⟨x, y, hx, hy, (hother x y hx hy hsame).mp hoff⟩
    · intro h
      rcases h with hflag | ⟨x, y, hx, hy, hoff⟩
      · exact .inl (by rw [hflag]; rfl)
      · by_cases hsame : (a, b) = (x, y)
        · cases hsame
          rcases hmet.mp hoff with hlit | hoff
          · exact .inl (by rw [hlit, Bool.or_true])
          · exact .inr ⟨a, b, hx, hy, hoff⟩
        · exact .inr ⟨x, y, hx, hy, (hother x y hx hy hsame).mpr hoff⟩

/-! ### The same places in another order, and once again -/

/-- Screens of the same size with the same lit cells are the same. -/
theorem eq_of_lit {s' : Screen} (h : s.WellFormed) (hsize : SameSize s s')
    (hlit : ∀ x y, x < s.cols → y < s.rows → s'.lit x y = s.lit x y) : s' = s := by
  have hcells : s'.cells = s.cells := by
    refine Array.ext hsize.size_eq fun i hi' hi => ?_
    have hcol : i % s.cols < s.cols := Nat.mod_lt i h.cols_pos
    have hrow : i / s.cols < s.rows := by
      refine (Nat.div_lt_iff_lt_mul h.cols_pos).mpr ?_
      rw [← h.size_cells]
      exact hi
    have hnumber : i % s.cols + i / s.cols * s.cols = i := Nat.mod_add_div' i s.cols
    have hsame := hlit (i % s.cols) (i / s.cols) hcol hrow
    rw [lit, lit, cellNumber, cellNumber, hsize.cols_eq, hnumber, Array.getElem?_eq_getElem hi,
      Array.getElem?_eq_getElem hi'] at hsame
    exact hsame
  obtain ⟨rows, cols, cells⟩ := s
  obtain ⟨rows', cols', cells'⟩ := s'
  obtain ⟨rfl, rfl, _⟩ := hsize
  exact congrArg (Screen.mk rows' cols') hcells

/-- What is left on the screen is a matter of how often, up to pairs, each place was met. -/
theorem invertAll_eq_of_counts {places' : List (Nat × Nat)} (hwell : drawn.1.WellFormed)
    (hplaces : ∀ place ∈ places, drawn.1.Inside place)
    (hplaces' : ∀ place ∈ places', drawn.1.Inside place)
    (hcounts : ∀ place, places'.count place % 2 = places.count place % 2) :
    (invertAll drawn places').1 = (invertAll drawn places).1 := by
  have hsize := sameSize_invertAll drawn places
  have hsize' := sameSize_invertAll drawn places'
  have hback : SameSize (invertAll drawn places).1 (invertAll drawn places').1 :=
    ⟨hsize'.rows_eq.trans hsize.rows_eq.symm, hsize'.cols_eq.trans hsize.cols_eq.symm,
      hsize'.size_eq.trans hsize.size_eq.symm⟩
  refine eq_of_lit (hwell.of_sameSize hsize) hback fun x y hx hy => ?_
  have hx' : x < drawn.1.cols := hsize.cols_eq ▸ hx
  have hy' : y < drawn.1.rows := hsize.rows_eq ▸ hy
  rw [lit_invertAll hwell hplaces hx' hy', lit_invertAll hwell hplaces' hx' hy', hcounts (x, y)]

/-- What is left on the screen is no matter of the flag. -/
theorem fst_invertAll (s : Screen) (places : List (Nat × Nat)) (erased erased' : Bool) :
    (invertAll (s, erased) places).1 = (invertAll (s, erased') places).1 := by
  induction places generalizing s erased erased' with
  | nil => rfl
  | cons place rest ih => exact ih (invert (s, erased) place).1 _ _

/-- A cell that is met is switched off, if not the first time the places are inverted, then the next. -/
theorem erased_again (h : s.WellFormed) (hplaces : ∀ place ∈ places, s.Inside place)
    (hne : places ≠ []) : (invertAll (s, false) places).2 = true ∨
      (invertAll ((invertAll (s, false) places).1, false) places).2 = true := by
  obtain ⟨⟨x, y⟩, hmem⟩ := List.exists_mem_of_ne_nil places hne
  obtain ⟨hx, hy⟩ := hplaces (x, y) hmem
  have hmet : 0 < places.count (x, y) := List.count_pos_iff.mpr hmem
  by_cases honce : s.lit x y = false ∧ places.count (x, y) = 1
  · -- the dark cell is switched on, and is lit the next time
    right
    have hsize := sameSize_invertAll (s, false) places
    have hlit : (invertAll (s, false) places).1.lit x y = _ := lit_invertAll h hplaces hx hy
    rw [honce.2] at hlit
    have hagain : ∀ place ∈ places, (invertAll (s, false) places).1.Inside place :=
      fun place hplace => (hplaces place hplace).of_sameSize hsize
    have hiff := @erased_invertAll_iff ((invertAll (s, false) places).1, false) places
      (h.of_sameSize hsize) hagain
    refine hiff.mpr (.inr ⟨x, y, ?_, ?_, ?_⟩)
    · rw [hsize.cols_eq]
      exact hx
    · rw [hsize.rows_eq]
      exact hy
    · rw [hlit, honce.1]
      exact hmet
  · left
    have hiff := @erased_invertAll_iff (s, false) places h hplaces
    refine hiff.mpr (.inr ⟨x, y, hx, hy, ?_⟩)
    show SwitchedOff (s.lit x y) _
    rw [SwitchedOff]
    split
    · exact hmet
    · next hdark =>
      rw [Bool.not_eq_true] at hdark
      have hnot : places.count (x, y) ≠ 1 := fun hone => honce ⟨hdark, hone⟩
      omega

end Chip8.Screen
