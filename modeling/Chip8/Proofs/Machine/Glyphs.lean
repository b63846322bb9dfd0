import Chip8.Proofs.Machine.BlockTransfer
import Chip8.Proofs.Machine.Drawing

/-!
# Fonts, programs and glyphs

A font is written to memory as one row of eighty bytes, and read glyph by glyph at an address that is
computed from the digit. `Memory.HoldsFont` says what both have to agree on: which byte lies where.

* Loading a font and loading a program touch different bytes, so their order does not matter
  (`Machine.Loaded`).
* In a machine that holds a font, the index register can be pointed at each of the glyphs, and the rows
  of a glyph that it points at can be drawn: cell by cell, what happens to the screen depends on the
  bits of the glyph (`Machine.PointsAt`, `Machine.DrawsRows`).

All of it is `Machine.draws_loaded_glyphs`.
-/

namespace Chip8

/-- Is bit `j`, the most significant one being the first, of row `i` of the glyph set? -/
def Glyph.bit (glyph : Glyph) (i j : Nat) : Bool := (glyph[i]?.getD 0).toNat.testBit (7 - j)

/-- The glyphs of the font lie from address 0x50 on, in order and row by row. -/
def Memory.HoldsFont (m : Memory) (font : Font) : Prop :=
  ∀ (digit : Fin 16) (row : Fin 5),
    m.bytes[0x50 + (5 * (digit : Nat) + row)]? = some ((font.get digit).get row)

namespace Font

/-- The glyph of the low digit of a byte. -/
def glyphOf (font : Font) (value : UInt8) : Glyph := font.get (Fin.ofNat 16 value.toNat)

/-- Entries of lists of the same length that are put together. -/
theorem getElem?_flatMap_of_length {α β : Type} {f : α → List β} {size : Nat} {l : List α}
    (hsize : ∀ a ∈ l, (f a).length = size) {i j : Nat} (hj : j < size) :
    (l.flatMap f)[size * i + j]? = l[i]?.bind fun a => (f a)[j]? := by
  induction l generalizing i with
  | nil => rfl
  | cons a rest ih =>
    have hlen : (f a).length = size := hsize a List.mem_cons_self
    rw [List.flatMap_cons]
    cases i with
    | zero =>
      rw [Nat.mul_zero, Nat.zero_add, List.getElem?_append_left (by omega)]
      rfl
    | succ i =>
      have hindex : size * (i + 1) + j - size = size * i + j := by
        rw [Nat.mul_succ]
        omega
      rw [List.getElem?_append_right (by rw [Nat.mul_succ]; omega), hlen, hindex,
        List.getElem?_cons_succ, ih fun b hb => hsize b (List.mem_cons_of_mem a hb)]

theorem length_bytes (font : Font) : font.bytes.length = 80 := by
  rw [bytes, List.length_flatMap, List.map_congr_left fun glyph _ => Vector.length_toList,
    List.map_const', List.sum_replicate_nat, Vector.length_toList]

/-- Each glyph lies at five times its digit. -/
theorem getElem?_bytes (font : Font) (digit : Fin 16) (row : Fin 5) :
    font.bytes[5 * (digit : Nat) + row]? = some ((font.get digit).get row) := by
  rw [bytes, getElem?_flatMap_of_length (fun glyph _ => Vector.length_toList) row.isLt,
    Vector.getElem?_toList, Vector.getElem?_eq_getElem digit.isLt, Option.bind_some,
    Vector.getElem?_toList]
  exact Vector.getElem?_eq_getElem row.isLt

end Font

namespace Machine

open Exec

/-- A font and a program have been loaded, and nothing else has changed. -/
structure Loaded (m : Machine) (font : Font) (program : List UInt8) (m' : Machine) : Prop where
  frame : m' = { m with memory := m'.memory }
  glyphs : m'.memory.HoldsFont font
  code : ∀ k < program.length, m'.memory.bytes[0x200 + k]? = program[k]?
  other : ∀ address : Nat,
    address < 0x50 ∨ 0x9F < address ∧ address < 0x200 ∨ 0x200 + program.length ≤ address →
      m'.memory.bytes[address]? = m.memory.bytes[address]?

/-- The index register points at five bytes of memory that are the rows of the glyph. -/
structure PointsAt (m : Machine) (glyph : Glyph) : Prop where
  inside : m.index.toNat + 5 ≤ m.memory.size
  row : ∀ row : Fin 5, m.memory.bytes[m.index.toNat + row]? = some (glyph.get row)

/-- The first `n` rows of the glyph have been drawn, with the corner at the point that registers `x`
and `y` name: its set bits have inverted the cells that they meet. -/
def DrawsRows (m : Machine) (glyph : Glyph) (x y : Fin 16) (n : Nat) (m' : Machine) : Prop :=
  m.Inverted (m.bitHits glyph.bit x y n) m'

variable {m : Machine} {font : Font} {glyph : Glyph} {program : List UInt8} {n : Nat}

/-! ### Loading -/

theorem programSpace_eq (hmemory : m.memory.size = Memory.capacity) :
    m.memory.programSpace = 3584 := by
  rw [Memory.programSpace, hmemory]
  rfl

/-- A program is refused just if it is longer than what remains of memory. -/
theorem loadProgram_eq_error_iff (hmemory : m.memory.size = Memory.capacity) :
    m.loadProgram program = .error (.programTooLarge program.length 3584) ↔
      3584 < program.length := by
  have hspace : m.memory.programSpace = 3584 := programSpace_eq hmemory
  by_cases hfits : program.length ≤ 3584
  · rw [loadProgram_of_le (by rw [hspace]; exact hfits)]
    simp [hfits]
  · rw [loadProgram_eq_map, Memory.loadProgram, Memory.checkProgram, hspace, if_neg hfits]
    exact iff_of_true rfl (Nat.lt_of_not_le hfits)

/-- A font lies before a program, and both can be found after the program was loaded last. -/
theorem loaded_of_write (hmemory : m.memory.size = Memory.capacity)
    (hprogram : program.length ≤ 3584) :
    m.Loaded font program
      { m with memory := (m.memory.loadFont font).write Memory.programStart.toNat program } := by
  have hcapacity : m.memory.size = 0x1000 := hmemory
  have hlen : font.bytes.length = 80 := font.length_bytes
  have hstart : Memory.programStart.toNat = 0x200 := rfl
  have hfont : Font.base + font.bytes.length ≤ m.memory.size := by
    rw [Font.base]
    omega
  have hcode : Memory.programStart.toNat + program.length ≤ (m.memory.loadFont font).size := by
    rw [Memory.loadFont, Memory.size_write]
    omega
  refine ⟨rfl, fun digit row => ?_, fun k hk => Memory.getElem?_write_of_inside hk hcode,
    fun address haddress => ?_⟩
  · rw [Memory.getElem?_write_of_outside _ (.inl (by omega)), ← font.getElem?_bytes]
    exact Memory.getElem?_write_of_inside (by omega) hfont
  · rw [Memory.getElem?_write_of_outside _ (by omega)]
    refine Memory.getElem?_write_of_outside _ ?_
    rw [Font.base]
    omega

/-- A font and a program can be loaded in either order. -/
theorem exists_loaded (hmemory : m.memory.size = Memory.capacity) (font : Font)
    (hprogram : program.length ≤ 3584) :
    ∃ m', (m.loadFont font).loadProgram program = .ok m' ∧
      (m.loadProgram program).map (·.loadFont font) = .ok m' ∧ m.Loaded font program m' := by
  have hlen : font.bytes.length = 80 := font.length_bytes
  have hstart : Memory.programStart.toNat = 0x200 := rfl
  have hcapacity : m.memory.size = 0x1000 := hmemory
  have hmemory' : (m.loadFont font).memory.size = Memory.capacity :=
    (Memory.size_write _ _ _).trans hmemory
  refine ⟨_, loadProgram_of_le (by rw [programSpace_eq hmemory']; exact hprogram), ?_,
    loaded_of_write hmemory hprogram⟩
  rw [loadProgram_of_le (by rw [programSpace_eq hmemory]; exact hprogram)]
  have hcomm : (m.memory.write Memory.programStart.toNat program).loadFont font =
      (m.memory.loadFont font).write Memory.programStart.toNat program :=
    (Memory.write_comm (by rw [Font.base]; omega) (by omega)).symm
  show Except.ok { m with memory := (m.memory.write Memory.programStart.toNat program).loadFont font }
    = _
  rw [hcomm]
  rfl

/-! ### Pointing at a glyph, and drawing it -/

/-- The index register can be pointed at each glyph of a font. -/
theorem run_pointToGlyph (hfont : m.memory.HoldsFont font) (x : Fin 16) :
    ∃ m', (execute (.register .pointToGlyph x)).run m = .ok .quiet m' ∧
      m' = { m with index := m'.index } ∧
      m'.PointsAt (font.glyphOf (m.registers.get x)) := by
  let digit : Fin 16 := Fin.ofNat 16 (m.registers.get x).toNat
  have hdigit : (m.registers.get x).toNat % 16 = digit := rfl
  have hindex : (UInt16.ofNat (Font.glyphAddress ((m.registers.get x).toNat % 16))).toNat =
      0x50 + 5 * (digit : Nat) := by
    have hlt := digit.isLt
    rw [hdigit, Font.glyphAddress, Font.base, Font.glyphBytes, UInt16.toNat_ofNat_of_lt']
    show 0x50 + 5 * (digit : Nat) < 0x10000
    omega
  have hrow : ∀ row : Fin 5,
      m.memory.bytes[0x50 + 5 * (digit : Nat) + row]? = some ((font.get digit).get row) := by
    intro row
    rw [Nat.add_assoc]
    exact hfont digit row
  refine ⟨{ m with index := UInt16.ofNat (Font.glyphAddress ((m.registers.get x).toNat % 16)) },
    run_registerOp (fun m₁ heffect => ?_) (fun e m₁ hfailure => ?_), rfl, ?_, ?_⟩
  · cases heffect
    rfl
  · cases hfailure with
    | block hlen hblock => cases hlen
  · obtain ⟨hlast, _⟩ := Array.getElem?_eq_some_iff.mp (hrow 4)
    rw [hindex]
    exact hlast
  · intro row
    rw [hindex]
    exact hrow row

/-- The bits of the sprite at the index register are those of the glyph that it points at. -/
theorem PointsAt.spriteBit_eq (h : m.PointsAt glyph) {i : Nat} (hi : i < 5) (j : Nat) :
    m.spriteBit i j = glyph.bit i j := by
  have hrow : m.memory.bytes[m.index.toNat + i]? = some (glyph.get ⟨i, hi⟩) := h.row ⟨i, hi⟩
  rw [spriteBit, Glyph.bit, hrow, Vector.getElem?_eq_getElem hi]
  rfl

/-- So a cell is hit by the sprite just as often as by the glyph. -/
theorem PointsAt.hits_eq (h : m.PointsAt glyph) (x y : Fin 16) (hn : n ≤ 5) :
    m.hits x y n = m.bitHits glyph.bit x y n := by
  funext c r
  rw [hits, bitHits, bitHits]
  refine List.countP_congr ?_
  intro dot hdot
  obtain ⟨i, j⟩ := dot
  have hi : i < n := (Screen.mem_pixels.mp hdot).1
  dsimp only
  rw [h.spriteBit_eq (Nat.lt_of_lt_of_le hi hn)]

/-- Rows of a glyph that the index register points at are drawn without fail. -/
theorem PointsAt.run_draw (h : m.PointsAt glyph) (hscreen : m.screen.WellFormed) (x y : Fin 16)
    (hn : n ≤ 5) :
    ∃ m', (execute (.draw x y n)).run m = .ok .redraw m' ∧ m.DrawsRows glyph x y n m' := by
  have hinside := h.inside
  have hfits : m.index.toNat + n ≤ m.memory.size := by omega
  have hdrawn : m.Drawn x y n (m.afterDrawing x y n) := drawn_afterDrawing hscreen hfits
  rw [Drawn, h.hits_eq x y hn] at hdrawn
  exact ⟨m.afterDrawing x y n, Machine.run_draw hscreen (by omega) hfits, hdrawn⟩

/-- A font and a program are loaded in either order, unless the program is too long. While a font is
held, the index register can be pointed at the glyph of any digit, and its rows can be drawn. -/
theorem draws_loaded_glyphs (font : Font) :
    (∀ (m : Machine) (program : List UInt8), m.memory.size = Memory.capacity →
      (m.loadProgram program = .error (.programTooLarge program.length 3584) ↔
        3584 < program.length) ∧
      (program.length ≤ 3584 → ∃ m', (m.loadFont font).loadProgram program = .ok m' ∧
        (m.loadProgram program).map (·.loadFont font) = .ok m' ∧ m.Loaded font program m')) ∧
    ∀ (m : Machine) (x : Fin 16), m.memory.HoldsFont font →
      ∃ pointed, (execute (.register .pointToGlyph x)).run m = .ok .quiet pointed ∧
        pointed = { m with index := pointed.index } ∧
        pointed.PointsAt (font.glyphOf (m.registers.get x)) ∧
        ∀ later : Machine, later.PointsAt (font.glyphOf (m.registers.get x)) →
          later.screen.WellFormed → ∀ (y z : Fin 16) (n : Nat), n ≤ 5 →
            ∃ drawn, (execute (.draw y z n)).run later = .ok .redraw drawn ∧
              later.DrawsRows (font.glyphOf (m.registers.get x)) y z n drawn := by
  refine ⟨fun m program hmemory => ?_, fun m x hfont => ?_⟩
  · exact ⟨loadProgram_eq_error_iff hmemory, exists_loaded hmemory font⟩
  · obtain ⟨pointed, hrun, hframe, hpoints⟩ := run_pointToGlyph hfont x
    refine ⟨pointed, hrun, hframe, hpoints, ?_⟩
    intro later hlater hscreen y z n hn
    exact hlater.run_draw hscreen y z hn

/-- A machine without a font, the last register of which names the digit ten. Its screen has three rows
of two columns. -/
def signboard : Machine :=
  { settings := {}, memory := Memory.blank, timers := {}, registers := Registers.cleared.withFlag 0x2A
    screen := Screen.blank 3 2, keypad := {}, random := .cycle #[] }

/-- The built-in font is loaded below a program, and the letter that stands for ten is drawn. Three of its
pixels meet in the first cell, which they light. The two that meet in the cell below leave it dark, and
switch it off on the way. -/
theorem draws_loaded_glyphs_signboard :
    ∃ loaded pointed drawn,
      (signboard.loadFont Font.builtIn).loadProgram [0xFF, 0x29, 0xD0, 0x15] = .ok loaded ∧
      loaded.memory.bytes[0x202]? = some 0xD0 ∧
      (execute (.register .pointToGlyph 15)).run loaded = .ok .quiet pointed ∧
      pointed.PointsAt #v[0xF0, 0x90, 0xF0, 0x90, 0x90] ∧
      (execute (.draw 0 1 5)).run pointed = .ok .redraw drawn ∧
      pointed.screen.get 0 0 = .ok false ∧ drawn.screen.get 0 0 = .ok true ∧
      drawn.screen.get 0 1 = .ok false ∧ drawn.registers.get 15 = 1 := by
  have hmemory : signboard.memory.size = Memory.capacity := Memory.size_blank
  obtain ⟨hloads, hdraws⟩ := draws_loaded_glyphs Font.builtIn
  obtain ⟨loaded, hload, _, hloaded⟩ :=
    (hloads signboard [0xFF, 0x29, 0xD0, 0x15] hmemory).2 (by decide)
  obtain ⟨pointed, hrun, hframe, hpoints, hlater⟩ := hdraws loaded 15 hloaded.glyphs
  have hloadedRegisters : loaded.registers = signboard.registers := by rw [hloaded.frame]
  have hregisters : pointed.registers = signboard.registers := by rw [hframe, hloadedRegisters]
  have hscreen : pointed.screen = signboard.screen := by rw [hframe, hloaded.frame]
  have hglyph : Font.builtIn.glyphOf (loaded.registers.get 15) =
      #v[0xF0, 0x90, 0xF0, 0x90, 0x90] := by
    rw [hloadedRegisters]
    rfl
  obtain ⟨drawn, hdraw, hrows⟩ :=
    hlater pointed hpoints (hscreen ▸ Screen.wellFormed_blank 3 2) 0 1 5 (Nat.le_refl 5)
  rw [hglyph] at hpoints hrows
  have hhits : ∀ c r, pointed.bitHits (Glyph.bit #v[0xF0, 0x90, 0xF0, 0x90, 0x90]) 0 1 5 c r =
      signboard.bitHits (Glyph.bit #v[0xF0, 0x90, 0xF0, 0x90, 0x90]) 0 1 5 c r := by
    intro c r
    rw [bitHits, bitHits, hscreen, hregisters]
  have hcell := hrows.cell
  have hflag := hrows.flag
  simp only [hscreen, hhits] at hcell hflag
  obtain ⟨lit, hdark, hlit⟩ := hcell 0 0 (by decide) (by decide)
  obtain ⟨lit', hdark', hlit'⟩ := hcell 0 1 (by decide) (by decide)
  cases hdark
  cases hdark'
  exact ⟨loaded, pointed, drawn, hload, hloaded.code 2 (by decide), hrun, hpoints, hdraw,
    hscreen ▸ rfl, hlit, hlit', hflag.mpr ⟨0, 1, by decide, by decide, .inr ⟨rfl, by decide⟩⟩⟩

end Machine

end Chip8
