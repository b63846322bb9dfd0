import Chip8.Proofs.Screen.Toggling
import Chip8.Screen.Sprite

/-!
# Drawing a sprite

A sprite is drawn by inverting the cells that its set pixels meet, one after the other:
`Screen.landings` lists their places, row by row and from left to right. Every pixel is brought back
into the grid before its cell is inverted, so drawing does not fault (`Screen.drawSprite_eq_ok`). On a
screen that is not well-formed it can, by a remainder by zero or by a cell that does not exist.
-/

namespace Chip8.Screen

/-- The pixels of a sprite of `n` rows of eight, each given by its row and column. -/
def pixels (n : Nat) : List (Nat × Nat) :=
  (List.range n).flatMap fun i => (List.range 8).map fun j => (i, j)

/-- Is this pixel of the sprite set? -/
def isSet (sprite : List UInt8) (dot : Nat × Nat) : Bool :=
  pixel (sprite[dot.1]?.getD 0) dot.2

/-- The place that this pixel meets, if the corner of its sprite is at column `left` and row `top`. -/
def landing (s : Screen) (left top : Nat) (dot : Nat × Nat) : Nat × Nat :=
  ((left + dot.2) % s.cols, (top + dot.1) % s.rows)

/-- The places that the set pixels of a sprite meet, in the order in which they are drawn. -/
def landings (s : Screen) (left top : Nat) (sprite : List UInt8) : List (Nat × Nat) :=
  ((pixels sprite.length).filter (isSet sprite)).map (landing s left top)

variable {s : Screen} {drawn : Screen × Bool} {left top : Nat} {sprite : List UInt8}

theorem mem_pixels {n i j : Nat} : (i, j) ∈ pixels n ↔ i < n ∧ j < spriteWidth := by
  simp [pixels, spriteWidth]

theorem inside_landing (h : s.WellFormed) (left top : Nat) (dot : Nat × Nat) :
    s.Inside (landing s left top dot) :=
  ⟨Nat.mod_lt _ h.cols_pos, Nat.mod_lt _ h.rows_pos⟩

theorem inside_of_mem_landings (h : s.WellFormed) {place : Nat × Nat}
    (hmem : place ∈ landings s left top sprite) : s.Inside place := by
  obtain ⟨dot, _, rfl⟩ := List.mem_map.mp hmem
  exact inside_landing h left top dot

theorem count_landings (place : Nat × Nat) :
    (landings s left top sprite).count place =
      (pixels sprite.length).countP fun dot =>
        landing s left top dot == place && isSet sprite dot := by
  rw [landings, List.count, List.countP_map, List.countP_filter]
  rfl

/-- The places depend on the size of the screen only. -/
theorem landings_of_sameSize {s' : Screen} (h : SameSize s s') :
    landings s' left top sprite = landings s left top sprite := by
  have hlanding : landing s' left top = landing s left top := by
    funext dot
    rw [landing, landing, h.cols_eq, h.rows_eq]
  rw [landings, landings, hlanding]

/-- A byte that is not zero has a set bit among its eight. -/
theorem exists_pixel {row : UInt8} (h : row ≠ 0) : ∃ j, j < spriteWidth ∧ pixel row j = true := by
  have hne : row.toNat ≠ 0 := fun hzero => h (UInt8.toNat_inj.mp hzero)
  obtain ⟨i, hi⟩ := Nat.exists_testBit_of_ne_zero hne
  have hlt : i < 8 := by
    refine Nat.lt_of_not_le fun hle => ?_
    have hrow : row.toNat < 2 ^ i :=
      Nat.lt_of_lt_of_le row.toNat_lt (Nat.pow_le_pow_right (by decide) hle)
    rw [Nat.testBit_lt_two_pow hrow] at hi
    cases hi
  refine ⟨7 - i, ?_, ?_⟩
  · show 7 - i < 8
    omega
  · have hindex : 8 - 1 - (7 - i) = i := by omega
    rw [pixel, spriteWidth, hindex]
    exact hi

/-- A sprite with a set bit meets a place. -/
theorem landings_ne_nil (h : ∃ row ∈ sprite, row ≠ 0) : landings s left top sprite ≠ [] := by
  obtain ⟨row, hmem, hrow⟩ := h
  obtain ⟨i, hi, hget⟩ := List.mem_iff_getElem.mp hmem
  obtain ⟨j, hj, hpixel⟩ := exists_pixel hrow
  have hset : isSet sprite (i, j) = true := by
    rw [isSet, List.getElem?_eq_getElem hi, hget]
    exact hpixel
  refine List.ne_nil_of_mem (a := landing s left top (i, j)) (List.mem_map_of_mem ?_)
  exact List.mem_filter.mpr ⟨mem_pixels.mpr ⟨hi, hj⟩, hset⟩

/-- A sprite without a set bit meets no place. -/
theorem landings_eq_nil (h : ¬ ∃ row ∈ sprite, row ≠ 0) : landings s left top sprite = [] := by
  rw [landings, List.map_eq_nil_iff, List.filter_eq_nil_iff]
  intro dot hdot
  obtain ⟨i, j⟩ := dot
  have hi : i < sprite.length := (mem_pixels.mp hdot).1
  have hzero : sprite[i] = 0 :=
    Decidable.not_not.mp fun hne => h ⟨sprite[i], List.getElem_mem hi, hne⟩
  rw [isSet, List.getElem?_eq_getElem hi, Option.getD_some, hzero, pixel]
  simp

/-! ### Steps that do not fault -/

theorem ok_bind {ε α β : Type} (a : α) (f : α → Except ε β) :
    ((Except.ok a : Except ε α) >>= f) = f a := rfl

/-- A loop the steps of which do not fault, as long as they keep something, is a fold. -/
theorem foldlM_eq_ok {α β ε : Type} {f : β → α → Except ε β} {g : β → α → β} {P : β → Prop}
    {l : List α} (hstep : ∀ b, P b → ∀ a ∈ l, f b a = .ok (g b a) ∧ P (g b a)) {b : β} (hb : P b) :
    l.foldlM f b = .ok (l.foldl g b) ∧ P (l.foldl g b) := by
  induction l generalizing b with
  | nil => exact ⟨rfl, hb⟩
  | cons a rest ih =>
    obtain ⟨hf, hg⟩ := hstep b hb a List.mem_cons_self
    rw [List.foldlM_cons, hf, List.foldl_cons]
    exact ih (fun b hb a ha => hstep b hb a (List.mem_cons_of_mem _ ha)) hg

theorem checkedAdd_of_lt {a b : Nat} (h : a + b < 0x10000000000000000) :
    checkedAdd a b = .ok (a + b) :=
  if_pos h

theorem checkedMod_of_pos (a : Nat) {b : Nat} (h : 0 < b) : checkedMod a b = .ok (a % b) :=
  if_neg (by omega)

/-! ### The pixels of a sprite -/

/-- Inverts the place that a pixel meets, if the pixel is set. -/
def invertIfSet (s : Screen) (left top : Nat) (sprite : List UInt8) (drawn : Screen × Bool)
    (dot : Nat × Nat) : Screen × Bool :=
  if isSet sprite dot = true then invert drawn (landing s left top dot) else drawn

theorem sameSize_invertIfSet (hdrawn : SameSize s drawn.1) (dot : Nat × Nat) :
    SameSize s (invertIfSet s left top sprite drawn dot).1 := by
  rw [invertIfSet]
  split
  · exact hdrawn.trans (sameSize_invert drawn _)
  · exact hdrawn

theorem drawPixel_eq_ok (hs : s.WellFormed) (hdrawn : SameSize s drawn.1) (hleft : left < 0x1000)
    {i j : Nat} (hj : j < spriteWidth) :
    drawPixel left ((top + i) % s.rows) (sprite[i]?.getD 0) drawn j =
      .ok (invertIfSet s left top sprite drawn (i, j)) := by
  rw [drawPixel, invertIfSet]
  show (if pixel (sprite[i]?.getD 0) j = true then _ else _) = _
  rw [isSet]
  split
  · have hwell := hs.of_sameSize hdrawn
    have hsum : left + j < 0x10000000000000000 := by
      have : spriteWidth = 8 := rfl
      omega
    have hx : (left + j) % drawn.1.cols < drawn.1.cols := Nat.mod_lt _ hwell.cols_pos
    have hy : (top + i) % s.rows < drawn.1.rows := by
      rw [hdrawn.rows_eq]
      exact Nat.mod_lt _ hs.rows_pos
    rw [checkedAdd_of_lt hsum, ok_bind, checkedMod_of_pos _ hwell.cols_pos, ok_bind,
      toggle_eq_ok hwell hx hy drawn.2, ok_bind, hdrawn.cols_eq]
    rfl
  · rfl

theorem drawRow_eq_ok (hs : s.WellFormed) (hdrawn : SameSize s drawn.1) (hleft : left < 0x1000)
    (htop : top < 0x1000) {i : Nat} (hi : i < 0x1000) :
    drawRow left top drawn (sprite[i]?.getD 0, i) =
      .ok (((List.range spriteWidth).map fun j => (i, j)).foldl
        (invertIfSet s left top sprite) drawn) ∧
      SameSize s (((List.range spriteWidth).map fun j => (i, j)).foldl
        (invertIfSet s left top sprite) drawn).1 := by
  rw [drawRow, checkedAdd_of_lt (by omega), ok_bind, hdrawn.rows_eq,
    checkedMod_of_pos _ hs.rows_pos, ok_bind, List.foldl_map]
  refine foldlM_eq_ok (P := fun drawn : Screen × Bool => SameSize s drawn.1) ?_ hdrawn
  intro drawn hdrawn j hj
  exact ⟨drawPixel_eq_ok hs hdrawn hleft (List.mem_range.mp hj), sameSize_invertIfSet hdrawn (i, j)⟩

theorem zipIdx_eq_map (sprite : List UInt8) :
    sprite.zipIdx = (List.range sprite.length).map fun i => (sprite[i]?.getD 0, i) := by
  refine List.ext_getElem (by simp) ?_
  intro i hi hi'
  have hlt : i < sprite.length := by simpa using hi
  simp [hlt]

/-- A sprite of at most 4096 rows is drawn by inverting the cells that its set pixels meet. -/
theorem drawSprite_eq_ok (hs : s.WellFormed) (hleft : left < 0x1000) (htop : top < 0x1000)
    (hlen : sprite.length ≤ 0x1000) :
    s.drawSprite left top sprite = .ok (invertAll (s, false) (landings s left top sprite)) := by
  have hfold : invertAll (s, false) (landings s left top sprite) =
      (List.range sprite.length).foldl (fun drawn i =>
        ((List.range spriteWidth).map fun j => (i, j)).foldl (invertIfSet s left top sprite) drawn)
          (s, false) := by
    rw [invertAll, landings, pixels, List.foldl_map, List.foldl_filter, List.foldl_flatMap]
    rfl
  rw [drawSprite, zipIdx_eq_map, List.foldlM_map, hfold]
  refine (foldlM_eq_ok (P := fun drawn : Screen × Bool => SameSize s drawn.1) ?_ (SameSize.refl s)).1
  intro drawn hdrawn i hi
  have hi : i < 0x1000 := Nat.lt_of_lt_of_le (List.mem_range.mp hi) hlen
  exact drawRow_eq_ok hs hdrawn hleft htop hi

end Chip8.Screen
