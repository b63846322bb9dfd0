import Chip8.Proofs.Screen.Framebuffer
import Chip8.Screen.Picture

/-!
# The points of a picture

A picture cuts its frame into rows and lists the lit cells of each. `Screen.lines_eq` writes the rows out as
the cells of a grid, and `Picture.points_eq` the points. So there is one point for each lit cell, the points
come row after row, and a frame can be told from its points if its size is known
(`Picture.Plots.eq_of_coordinates`).

Whatever a picture has been given before, it shows the frame that was stored last
(`Picture.shows_lit_cells`).
-/

namespace Chip8

/-- A list of values is numbered from zero on. -/
theorem zipIdx_map_range {α : Type} (f : Nat → α) (n : Nat) :
    ((List.range n).map f).zipIdx = (List.range n).map fun i => (f i, i) := by
  refine List.ext_getElem? fun i => ?_
  by_cases hi : i < n
  · simp [hi]
  · simp [hi]

namespace Screen

variable {s : Screen}

/-- The rows list the cells of the grid. -/
theorem lines_eq (h : s.WellFormed) :
    s.lines = (List.range s.rows).map fun r => (List.range s.cols).map fun c => s.lit c r := by
  refine List.ext_getElem? fun r => ?_
  by_cases hr : r < s.rows
  · obtain ⟨row, hrow, hlen, hcells⟩ := exists_line h hr
    have hcols : row = (List.range s.cols).map fun c => s.lit c r := by
      refine List.ext_getElem? fun c => ?_
      by_cases hc : c < s.cols
      · rw [hcells c hc, List.getElem?_map, List.getElem?_range hc, Option.map_some]
      · rw [List.getElem?_eq_none (by omega), List.getElem?_eq_none (by simpa using hc)]
    rw [hrow, hcols, List.getElem?_map, List.getElem?_range hr, Option.map_some]
  · have hlen := length_lines h
    rw [List.getElem?_eq_none (by omega), List.getElem?_eq_none (by simpa using hr)]

/-- Put one after the other, the rows are all the cells. -/
theorem flatten_lines (s : Screen) : s.lines.flatten = s.cells.toList := by
  have hcols : max s.cols 1 ≠ 0 := by omega
  rw [lines, flatten_blocks hcols]

end Screen

namespace Picture

/-- The coordinates of the points, in the order in which they are listed. -/
def coordinates (p : Picture) : List (Int × Int) := p.points.map fun point => (point.x, point.y)

/-- The points of one row of a screen. -/
def rowPoints (s : Screen) (r : Nat) : List Point :=
  (List.range s.cols).filterMap fun c => if s.lit c r then some ⟨c, r⟩ else none

/-- A point is listed before another if it is higher, or further left in the same row. -/
def Before (a b : Int × Int) : Prop := b.2 < a.2 ∨ a.2 = b.2 ∧ a.1 < b.1

/-- The points of a picture are the lit cells of a screen. -/
structure Plots (p : Picture) (s : Screen) : Prop where
  mem_iff : ∀ x y : Int, (x, y) ∈ p.coordinates ↔
    ∃ c r : Nat, c < s.cols ∧ r < s.rows ∧ s.get c r = .ok true ∧ x = c ∧ y = -r
  nodup : p.coordinates.Nodup
  rowMajor : p.coordinates.Pairwise Before
  length_eq : p.coordinates.length = s.cells.toList.count true

variable {p p' : Picture} {s s' : Screen}

/-! ### The points of a row -/

theorem mem_rowPoints {r : Nat} {point : Point} :
    point ∈ rowPoints s r ↔
      point.column < s.cols ∧ s.lit point.column r = true ∧ point.below = r := by
  rw [rowPoints, List.mem_filterMap]
  constructor
  · rintro ⟨c, hc, hpoint⟩
    split at hpoint
    · next hlit =>
      cases hpoint
      exact ⟨List.mem_range.mp hc, hlit, rfl⟩
    · cases hpoint
  · rintro ⟨hc, hlit, rfl⟩
    exact ⟨point.column, List.mem_range.mpr hc, if_pos hlit⟩

/-- The cells of a row are listed from the left. -/
theorem pairwise_rowPoints (s : Screen) (r : Nat) :
    (rowPoints s r).Pairwise fun a b => a.column < b.column := by
  rw [rowPoints, List.pairwise_filterMap]
  refine List.pairwise_lt_range.imp fun {c c'} hlt => ?_
  intro point hpoint point' hpoint'
  split at hpoint
  · cases hpoint
    split at hpoint'
    · cases hpoint'
      exact hlt
    · cases hpoint'
  · cases hpoint

theorem length_rowPoints (s : Screen) (r : Nat) :
    (rowPoints s r).length = ((List.range s.cols).map fun c => s.lit c r).count true := by
  rw [rowPoints, List.length_filterMap_eq_countP, List.count, List.countP_map]
  refine List.countP_congr fun c _ => ?_
  cases hlit : s.lit c r <;> simp [hlit]

/-! ### The points of a picture -/

/-- The points are those of all rows, one row after the other. -/
theorem points_eq (h : p.frame.WellFormed) :
    p.points = (List.range p.frame.rows).flatMap (rowPoints p.frame) := by
  rw [points, Screen.lines_eq h, zipIdx_map_range, List.flatMap_map]
  simp only [zipIdx_map_range, List.filterMap_map, Function.comp_def]
  rfl

theorem mem_coordinates_iff (h : p.frame.WellFormed) {x y : Int} :
    (x, y) ∈ p.coordinates ↔
      ∃ c r : Nat, c < p.frame.cols ∧ r < p.frame.rows ∧ p.frame.lit c r = true ∧ x = c ∧ y = -r := by
  rw [coordinates, List.mem_map, points_eq h]
  constructor
  · rintro ⟨point, hpoint, heq⟩
    obtain ⟨r, hr, hmem⟩ := List.mem_flatMap.mp hpoint
    obtain ⟨hc, hlit, rfl⟩ := mem_rowPoints.mp hmem
    cases heq
    exact ⟨point.column, point.below, hc, List.mem_range.mp hr, hlit, rfl, rfl⟩
  · rintro ⟨c, r, hc, hr, hlit, rfl, rfl⟩
    have hmem : ⟨c, r⟩ ∈ rowPoints p.frame r := mem_rowPoints.mpr ⟨hc, hlit, rfl⟩
    exact ⟨⟨c, r⟩, List.mem_flatMap.mpr ⟨r, List.mem_range.mpr hr, hmem⟩, rfl⟩

theorem rowMajor_coordinates (h : p.frame.WellFormed) : p.coordinates.Pairwise Before := by
  rw [coordinates, List.pairwise_map, points_eq h, List.pairwise_flatMap]
  constructor
  · intro r _
    refine (pairwise_rowPoints p.frame r).imp_of_mem fun {a b} ha hb hlt => ?_
    have hsame : a.below = b.below := (mem_rowPoints.mp ha).2.2.trans (mem_rowPoints.mp hb).2.2.symm
    exact .inr ⟨congrArg (fun below : Nat => -(below : Int)) hsame, Int.ofNat_lt.mpr hlt⟩
  · refine List.pairwise_lt_range.imp fun {r r'} hlt a ha b hb => .inl ?_
    have ha : a.below = r := (mem_rowPoints.mp ha).2.2
    have hb : b.below = r' := (mem_rowPoints.mp hb).2.2
    show -(b.below : Int) < -(a.below : Int)
    omega

theorem length_coordinates (h : p.frame.WellFormed) :
    p.coordinates.length = p.frame.cells.toList.count true := by
  rw [coordinates, List.length_map, points_eq h, ← Screen.flatten_lines, Screen.lines_eq h,
    List.length_flatMap, List.count_flatten, List.map_map]
  exact congrArg List.sum (List.map_congr_left fun r _ => length_rowPoints p.frame r)

/-- No point is listed before itself, so none is listed twice. -/
theorem nodup_of_rowMajor {points : List (Int × Int)} (h : points.Pairwise Before) :
    points.Nodup := by
  refine h.imp fun {a b} hbefore heq => ?_
  rw [heq] at hbefore
  rcases hbefore with hlt | ⟨_, hlt⟩
  · exact Int.lt_irrefl _ hlt
  · exact Int.lt_irrefl _ hlt

theorem plots (h : s.WellFormed) : Plots ⟨s⟩ s where
  mem_iff x y := by
    rw [mem_coordinates_iff h]
    constructor
    · rintro ⟨c, r, hc, hr, hlit, hx, hy⟩
      exact ⟨c, r, hc, hr, hlit ▸ Screen.get_eq_ok h hc hr, hx, hy⟩
    · rintro ⟨c, r, hc, hr, hget, hx, hy⟩
      rw [Screen.get_eq_ok h hc hr] at hget
      exact ⟨c, r, hc, hr, Except.ok.inj hget, hx, hy⟩
  nodup := nodup_of_rowMajor (rowMajor_coordinates h)
  rowMajor := rowMajor_coordinates h
  length_eq := length_coordinates h

theorem Plots.lit_iff (h : p.Plots s) (hs : s.WellFormed) {c r : Nat} (hc : c < s.cols)
    (hr : r < s.rows) : s.lit c r = true ↔ ((c : Int), -(r : Int)) ∈ p.coordinates := by
  rw [h.mem_iff]
  constructor
  · intro hlit
    exact ⟨c, r, hc, hr, hlit ▸ Screen.get_eq_ok hs hc hr, rfl, rfl⟩
  · rintro ⟨c', r', _, _, hget, hx, hy⟩
    obtain rfl : c = c' := by omega
    obtain rfl : r = r' := by omega
    rw [Screen.get_eq_ok hs hc hr] at hget
    exact Except.ok.inj hget

/-- Screens of the same size that have the same points are the same. -/
theorem Plots.eq_of_coordinates (h : p.Plots s) (h' : p'.Plots s') (hs : s.WellFormed)
    (hs' : s'.WellFormed) (hrows : s'.rows = s.rows) (hcols : s'.cols = s.cols)
    (hsame : p'.coordinates = p.coordinates) : s' = s := by
  have hsize : Screen.SameSize s s' :=
    ⟨hrows, hcols, by rw [hs.size_cells, hs'.size_cells, hrows, hcols]⟩
  refine Screen.eq_of_lit hs hsize fun c r hc hr => Bool.eq_iff_iff.mpr ?_
  rw [h'.lit_iff hs' (hcols ▸ hc) (hrows ▸ hr), h.lit_iff hs hc hr, hsame]

/-! ### Any number of frames -/

/-- Of all frames only the last one remains. -/
theorem foldl_store (p : Picture) (frames : List Screen) (s : Screen) :
    (frames ++ [s]).foldl store p = ⟨s⟩ := by
  rw [List.foldl_append]
  rfl

/-- After any frames, of whatever sizes, a picture lists the lit cells of the last one: each once, with its
column and the opposite of its row, and row after row. Two frames of the same size have the same points
only if they are equal. -/
theorem shows_lit_cells (p : Picture) (frames : List Screen) (s : Screen) (hs : s.WellFormed) :
    (frames ++ [s]).foldl store p = ⟨s⟩ ∧ ((frames ++ [s]).foldl store p).Plots s ∧
    ∀ (p' : Picture) (frames' : List Screen) (s' : Screen), s'.WellFormed →
      s'.rows = s.rows → s'.cols = s.cols →
      ((frames' ++ [s']).foldl store p').coordinates =
        ((frames ++ [s]).foldl store p).coordinates → s' = s := by
  refine ⟨foldl_store p frames s, ?_, ?_⟩
  · rw [foldl_store]
    exact plots hs
  · intro p' frames' s' hs' hrows hcols hsame
    rw [foldl_store, foldl_store] at hsame
    exact (plots hs).eq_of_coordinates (plots hs') hs hs' hrows hcols hsame

/-- Two rows of three columns, with a lit cell in each row. -/
def steps : Screen := ⟨2, 3, #[false, false, true, false, true, false]⟩

/-- The same, with the lower one a column further left. -/
def widerSteps : Screen := ⟨2, 3, #[false, false, true, true, false, false]⟩

/-- A picture made for the usual screen has just two points after the small one was stored, and other ones
when the lower cell has moved by a column. -/
theorem shows_lit_cells_steps :
    ∃ p, Picture.create {} = .ok p ∧ p.frame.rows = 32 ∧ steps.WellFormed ∧
      (([Screen.blank 4 4, steps].foldl store p).coordinates.length = 2 ∧
        (2, 0) ∈ ([Screen.blank 4 4, steps].foldl store p).coordinates ∧
        (1, -1) ∈ ([Screen.blank 4 4, steps].foldl store p).coordinates) ∧
      ([widerSteps].foldl store p).coordinates ≠
        ([Screen.blank 4 4, steps].foldl store p).coordinates := by
  have hsteps : steps.WellFormed := ⟨by decide, by decide, rfl⟩
  have hcreate : Picture.create {} = .ok ⟨Screen.blank 32 64⟩ := rfl
  obtain ⟨_, hplots, hinj⟩ :=
    shows_lit_cells ⟨Screen.blank 32 64⟩ [Screen.blank 4 4] steps hsteps
  refine ⟨_, hcreate, rfl, hsteps, ⟨hplots.length_eq, ?_, ?_⟩, fun hsame => ?_⟩
  · exact (hplots.mem_iff 2 0).mpr ⟨2, 0, by decide, by decide, rfl, rfl, rfl⟩
  · exact (hplots.mem_iff 1 (-1)).mpr ⟨1, 1, by decide, by decide, rfl, rfl, rfl⟩
  · have hequal := hinj ⟨Screen.blank 32 64⟩ [] widerSteps ⟨by decide, by decide, rfl⟩ rfl rfl hsame
    exact absurd hequal (by decide)

end Picture

end Chip8
