import Chip8.Proofs.Machine.Stepping
import Chip8.Proofs.Memory.Blocks

/-!
# Drawing the sprite at the index register

`Machine.hits` counts the set pixels of the sprite that meet a given cell. On a screen with fewer than
eight columns, or fewer rows than the sprite has, there can be several. `Machine.Inverted` says what a
screen is like afterwards, whatever the counts.

A drawing instruction inverts the cells that are hit an odd number of times, and sets the flag if a lit
cell was hit at all or a dark one at least twice (`Machine.draw_inverts_hits`). The corner is read before
the flag is written, so this holds just as well where the flag's own register names the corner.
-/

namespace Chip8

namespace Machine

open Memory (getElem?_block length_block)
open Screen (SwitchedOff)

/-- Is bit `j`, the most significant one being the first, of row `i` of the sprite set? -/
def spriteBit (m : Machine) (i j : Nat) : Bool :=
  (m.memory.bytes[m.index.toNat + i]?.getD 0).toNat.testBit (7 - j)

/-- The set pixels of `n` rows of bits that meet the cell in column `c` of row `r`, if registers `x` and
`y` name the corner of the first row. -/
def bitHits (m : Machine) (bit : Nat → Nat → Bool) (x y : Fin 16) (n c r : Nat) : Nat :=
  (Screen.pixels n).countP fun (i, j) => bit i j &&
    (m.registers[y].toNat % m.screen.rows + i) % m.screen.rows == r &&
    (m.registers[x].toNat % m.screen.cols + j) % m.screen.cols == c

/-- The set pixels of the sprite at the index register, if it has `n` rows, that meet a cell. -/
def hits (m : Machine) (x y : Fin 16) (n c r : Nat) : Nat := m.bitHits m.spriteBit x y n c r

/-- What has happened to a machine each cell of whose screen was hit, the one in column `c` of row `r` as
often as `hits c r` says. Nothing but the screen and the flag has changed. -/
structure Inverted (m : Machine) (hits : Nat → Nat → Nat) (m' : Machine) : Prop where
  frame : m' = { m with screen := m'.screen, registers := m'.registers }
  register : ∀ k (hk : k < 15), m'.registers[k] = m.registers[k]
  size : Screen.SameSize m.screen m'.screen
  cell : ∀ c r, c < m.screen.cols → r < m.screen.rows → ∃ lit, m.screen.get c r = .ok lit ∧
    m'.screen.get c r = .ok (lit ^^ decide (hits c r % 2 = 1))
  flag : m'.registers[15] = 1 ↔ ∃ c r, c < m.screen.cols ∧ r < m.screen.rows ∧
    (m.screen.get c r = .ok true ∧ 1 ≤ hits c r ∨ m.screen.get c r = .ok false ∧ 2 ≤ hits c r)
  flag_cases : m'.registers[15] = 0 ∨ m'.registers[15] = 1

/-- What has happened once the sprite is drawn. -/
def Drawn (m : Machine) (x y : Fin 16) (n : Nat) (m' : Machine) : Prop := m.Inverted (m.hits x y n) m'

variable {m : Machine} {x y : Fin 16} {n c r : Nat}

/-- The places that the sprite meets. -/
def meets (m : Machine) (x y : Fin 16) (n : Nat) : List (Nat × Nat) :=
  m.screen.landings (m.registers[x].toNat % m.screen.cols) (m.registers[y].toNat % m.screen.rows)
    (m.memory.block m.index.toNat n)

theorem count_meets (hfits : m.index.toNat + n ≤ m.memory.size) :
    (m.meets x y n).count (c, r) = m.hits x y n c r := by
  rw [meets, Screen.count_landings, length_block hfits, hits, bitHits]
  refine List.countP_congr ?_
  intro dot hdot
  obtain ⟨i, j⟩ := dot
  have hi : i < n := (Screen.mem_pixels.mp hdot).1
  have hset : Screen.isSet (m.memory.block m.index.toNat n) (i, j) = m.spriteBit i j := by
    rw [Screen.isSet, getElem?_block hi hfits]
    rfl
  rw [hset, Screen.landing]
  simp only [Bool.and_eq_true, beq_iff_eq, Prod.mk.injEq]
  constructor
  · intro h
    obtain ⟨⟨hcol, hrow⟩, hbit⟩ := h
    exact ⟨⟨hbit, hrow⟩, hcol⟩
  · intro h
    obtain ⟨⟨hbit, hrow⟩, hcol⟩ := h
    exact ⟨⟨hcol, hrow⟩, hbit⟩

theorem inside_of_mem_meets (hscreen : m.screen.WellFormed) :
    ∀ place ∈ m.meets x y n, m.screen.Inside place :=
  fun _ hmem => Screen.inside_of_mem_landings hscreen hmem

/-- The machine after it has drawn the sprite. -/
def afterDrawing (m : Machine) (x y : Fin 16) (n : Nat) : Machine :=
  { m with
    screen := (Screen.invertAll (m.screen, false) (m.meets x y n)).1
    registers := m.registers.withFlag
      (flagOf (Screen.invertAll (m.screen, false) (m.meets x y n)).2) }

/-- Drawing goes through if the sprite lies in memory. -/
theorem run_draw (hscreen : m.screen.WellFormed) (hn : n ≤ 0x1000)
    (hfits : m.index.toNat + n ≤ m.memory.size) :
    (execute (.draw x y n)).run m = .ok .redraw (m.afterDrawing x y n) := by
  have hdrawn : ∀ m', Exec.Effect m (.draw x y n) .next .redraw m' → m' = m.afterDrawing x y n := by
    intro m' heffect
    cases heffect with
    | @draw _ _ _ screen erased hx hy hblock hdraw =>
      rw [Exec.drawSprite_block hscreen m.registers[x.val] m.registers[y.val] m.memory m.index.toNat
        hn] at hdraw
      have hpair : Screen.invertAll (m.screen, false) (m.meets x y n) = (screen, erased) :=
        Except.ok.inj hdraw
      rw [afterDrawing, hpair]
  have hends : Exec.Ends (execute (.draw x y n)) m
      ⟨fun notice m' => notice = .redraw ∧ m' = m.afterDrawing x y n, fun _ _ => False, False⟩ := by
    rw [execute]
    refine Exec.ends_bind (Exec.ends_bind (Exec.ends_draw ?_ ?_ ?_))
    · intro m' heffect
      exact Exec.ends_pure (Exec.ends_bind (Exec.ends_modify (Exec.ends_pure
        ⟨rfl, hdrawn m' heffect⟩)))
    · intro cause hcause
      exact absurd hfits (Nat.not_le_of_lt (Memory.checkBlock_eq_error_iff.mp hcause).1)
    · intro hbad
      exact hbad ⟨x.isLt, y.isLt, hn, hscreen⟩
  exact hends.run_eq

/-- The cells that are hit an odd number of times are inverted, and the flag says whether a lit cell was
switched off. -/
theorem drawn_afterDrawing (hscreen : m.screen.WellFormed)
    (hfits : m.index.toNat + n ≤ m.memory.size) : m.Drawn x y n (m.afterDrawing x y n) := by
  have hstart : ((m.screen, false) : Screen × Bool).1.WellFormed := hscreen
  have hinside : ∀ place ∈ m.meets x y n, m.screen.Inside place :=
    inside_of_mem_meets hscreen
  have hsize := Screen.sameSize_invertAll (m.screen, false) (m.meets x y n)
  have hflag : (m.afterDrawing x y n).registers[15] =
      flagOf (Screen.invertAll (m.screen, false) (m.meets x y n)).2 :=
    Registers.get_withFlag_self _ _
  refine ⟨rfl, ?_, hsize, ?_, ?_, ?_⟩
  · intro k hk
    have hk' : k < 16 := Nat.lt_succ_of_lt hk
    have hne : (⟨k, hk'⟩ : Fin 16) ≠ 15 := Fin.ne_of_lt hk
    exact Registers.get_withFlag_of_ne _ _ hne
  · intro c r hc hr
    refine ⟨m.screen.lit c r, Screen.get_eq_ok hscreen hc hr, ?_⟩
    have hlit := Screen.lit_invertAll hstart hinside hc hr
    rw [count_meets hfits] at hlit
    rw [← hlit]
    exact Screen.get_eq_ok (hscreen.of_sameSize hsize) (hsize.cols_eq ▸ hc) (hsize.rows_eq ▸ hr)
  · rw [hflag, flagOf_eq_one_iff, Screen.erased_invertAll_iff hstart hinside]
    simp only [count_meets hfits, Bool.false_eq_true, false_or]
    refine exists_congr fun c => exists_congr fun r => and_congr_right fun hc =>
      and_congr_right fun hr => ?_
    rw [Screen.get_eq_ok hscreen hc hr, SwitchedOff]
    cases m.screen.lit c r with
    | true => simp
    | false => simp
  · rw [hflag]
    exact flagOf_cases _

/-- Drawing inverts the cells that are hit an odd number of times, and its flag says whether a lit cell
was switched off. -/
theorem draw_inverts_hits (hmemory : m.memory.size = Memory.capacity)
    (hscreen : m.screen.WellFormed) (x y : Fin 16)
    (hfits : m.index.toNat + n ≤ Memory.capacity) :
    ∃ m', (execute (.draw x y n)).run m = .ok .redraw m' ∧ m.Drawn x y n m' := by
  have hcapacity : Memory.capacity = 0x1000 := rfl
  have hfits' : m.index.toNat + n ≤ m.memory.size := hmemory ▸ hfits
  exact ⟨m.afterDrawing x y n, run_draw hscreen (by omega) hfits', drawn_afterDrawing hscreen hfits'⟩

/-- A machine whose only cell is lit. Both corner registers are the flag's, and the sprite at the index
register has three set pixels. -/
def pinhole : Machine :=
  { settings := {}, memory := Memory.blank.write 0x300 [0xC0, 0x01], index := 0x300, timers := {}
    registers := Registers.cleared.withFlag 7, screen := { rows := 1, cols := 1, cells := #[true] }
    keypad := {}, random := .cycle #[] }

theorem draw_inverts_hits_pinhole :
    ∃ m', (execute (.draw 15 15 2)).run pinhole = .ok .redraw m' ∧ pinhole.Drawn 15 15 2 m' :=
  draw_inverts_hits ((Memory.size_write _ _ _).trans Memory.size_blank)
    ⟨by decide, by decide, by decide⟩ 15 15 (by decide)

end Machine

end Chip8
