import Chip8.Proofs.Machine.Drawing

/-!
# Drawing in any order, and twice

A `Stamp` is a sprite with the values of the registers that name its corner. `Machine.SetUp` says that a
machine is about to draw it, and `Draws` chains drawing instructions: each one is carried out on a
machine that is set up for its stamp and has the screen that the one before it left. How the machine is
set up, and what else happens to it in between, is left open.

* `Draws.screen_eq`: what is on the screen in the end is what comes of inverting all the places that
  the stamps meet.
* So the order of the stamps does not matter, and a stamp drawn twice in a row might as well have been
  left out. The flags do depend on the order, but a stamp with a set bit sets one of two flags in a row.
* If neither corner register is the flag's, an instruction that has been carried out is set up to be
  carried out again, and then leaves the screen from before.

All of it is `Machine.draws_commute_and_cancel`.
-/

namespace Chip8

/-- A sprite, and the values of the registers that name its corner. -/
structure Stamp where
  rows : List UInt8
  left : UInt8
  top : UInt8
  deriving DecidableEq, Repr

namespace Stamp

/-- Does the sprite have a set bit? -/
def HasSetBit (d : Stamp) : Prop := ∃ row ∈ d.rows, row ≠ 0

instance (d : Stamp) : Decidable d.HasSetBit := inferInstanceAs (Decidable (∃ row ∈ d.rows, row ≠ 0))

/-- The places of a screen that the stamp meets. -/
def places (d : Stamp) (s : Screen) : List (Nat × Nat) :=
  s.landings (d.left.toNat % s.cols) (d.top.toNat % s.rows) d.rows

/-- The screen and the flag after the stamp was drawn. -/
def drawnOn (d : Stamp) (s : Screen) : Screen × Bool := Screen.invertAll (s, false) (d.places s)

variable {d : Stamp} {s s' : Screen}

theorem inside_of_mem_places (hs : s.WellFormed) : ∀ place ∈ d.places s, s.Inside place :=
  fun _ hmem => Screen.inside_of_mem_landings hs hmem

theorem sameSize_drawnOn (d : Stamp) (s : Screen) : Screen.SameSize s (d.drawnOn s).1 :=
  Screen.sameSize_invertAll (s, false) (d.places s)

theorem places_of_sameSize (d : Stamp) (h : Screen.SameSize s s') : d.places s' = d.places s := by
  rw [places, places, Screen.landings_of_sameSize h, h.cols_eq, h.rows_eq]

/-- A stamp with a set bit switches a cell off, if not the first time it is drawn, then the next. -/
theorem drawnOn_again (hs : s.WellFormed) (hbit : d.HasSetBit) :
    (d.drawnOn s).2 = true ∨ (d.drawnOn (d.drawnOn s).1).2 = true := by
  have hagain := Screen.erased_again hs (inside_of_mem_places hs) (Screen.landings_ne_nil hbit)
  rw [drawnOn, drawnOn, places_of_sameSize d (Screen.sameSize_invertAll (s, false) _)]
  exact hagain

/-- A stamp without a set bit switches no cell off. -/
theorem drawnOn_of_not_hasSetBit (hbit : ¬ d.HasSetBit) : (d.drawnOn s).2 = false := by
  rw [drawnOn, places, Screen.landings_eq_nil hbit]
  rfl

end Stamp

namespace Machine

/-- The machine is about to draw the stamp if registers `x` and `y` name the corner. -/
structure SetUp (m : Machine) (x y : Fin 16) (d : Stamp) : Prop where
  memory_size : m.memory.size = Memory.capacity
  fits : m.index.toNat + d.rows.length ≤ Memory.capacity
  rows : m.memory.block m.index.toNat d.rows.length = d.rows
  left : m.registers.get x = d.left
  top : m.registers.get y = d.top

/-- The stamps are drawn one after the other, which turns one screen into another and leaves the
flags. -/
inductive Draws : Screen → List Stamp → List UInt8 → Screen → Prop
  | nil (s : Screen) : Draws s [] [] s
  | cons {m m' : Machine} {x y : Fin 16} {d : Stamp} {rest : List Stamp} {flags : List UInt8}
      {s : Screen} (hsetUp : m.SetUp x y d)
      (hrun : (execute (.draw x y d.rows.length)).run m = .ok .redraw m')
      (hrest : Draws m'.screen rest flags s) :
      Draws m.screen (d :: rest) (m'.registers.get 15 :: flags) s

variable {m m' : Machine} {x y : Fin 16} {d : Stamp}

/-! ### One stamp -/

theorem SetUp.meets_eq (h : m.SetUp x y d) : m.meets x y d.rows.length = d.places m.screen := by
  have hleft : m.registers[x] = d.left := h.left
  have htop : m.registers[y] = d.top := h.top
  rw [meets, Stamp.places, h.rows, hleft, htop]

/-- A stamp is drawn by inverting the places it meets. -/
theorem SetUp.run (h : m.SetUp x y d) (hscreen : m.screen.WellFormed) :
    (execute (.draw x y d.rows.length)).run m = .ok .redraw
      { m with
        screen := (d.drawnOn m.screen).1
        registers := m.registers.withFlag (flagOf (d.drawnOn m.screen).2) } := by
  have hcapacity : Memory.capacity = 0x1000 := rfl
  have hlen := h.fits
  have hrun := run_draw (x := x) (y := y) hscreen (by omega) (h.memory_size.symm ▸ h.fits)
  rw [hrun, afterDrawing, h.meets_eq]
  rfl

theorem SetUp.screen_eq (h : m.SetUp x y d) (hscreen : m.screen.WellFormed)
    (hrun : (execute (.draw x y d.rows.length)).run m = .ok .redraw m') :
    m'.screen = (d.drawnOn m.screen).1 := by
  cases (h.run hscreen).symm.trans hrun
  rfl

theorem SetUp.flag_eq (h : m.SetUp x y d) (hscreen : m.screen.WellFormed)
    (hrun : (execute (.draw x y d.rows.length)).run m = .ok .redraw m') :
    m'.registers.get 15 = flagOf (d.drawnOn m.screen).2 := by
  cases (h.run hscreen).symm.trans hrun
  exact Registers.get_withFlag_self _ _

/-- Drawing writes the flag and no other register, so the instruction can be carried out again. -/
theorem SetUp.again (h : m.SetUp x y d) (hscreen : m.screen.WellFormed) (hx : x ≠ 15) (hy : y ≠ 15)
    (hrun : (execute (.draw x y d.rows.length)).run m = .ok .redraw m') : m'.SetUp x y d := by
  cases (h.run hscreen).symm.trans hrun
  exact ⟨h.memory_size, h.fits, h.rows, (Registers.get_withFlag_of_ne _ _ hx).trans h.left,
    (Registers.get_withFlag_of_ne _ _ hy).trans h.top⟩

/-! ### One stamp after the other -/

variable {s s' : Screen} {stamps : List Stamp} {flags : List UInt8}

/-- The places that the stamps meet, in the order in which they are drawn. -/
def allPlaces (s : Screen) (stamps : List Stamp) : List (Nat × Nat) :=
  stamps.flatMap fun d => d.places s

theorem inside_of_mem_allPlaces (hs : s.WellFormed) :
    ∀ place ∈ allPlaces s stamps, s.Inside place := by
  intro place hmem
  obtain ⟨d, _, hplace⟩ := List.mem_flatMap.mp hmem
  exact Stamp.inside_of_mem_places hs place hplace

/-- Drawing stamps inverts the places that they meet. -/
theorem Draws.screen_eq (h : Draws s stamps flags s') (hs : s.WellFormed) :
    s' = (Screen.invertAll (s, false) (allPlaces s stamps)).1 := by
  induction h with
  | nil s => rfl
  | @cons m m' x y d rest flags s' hsetUp hrun hrest ih =>
    have hdrawn := hsetUp.screen_eq hs hrun
    have hsize : Screen.SameSize m.screen m'.screen := by
      rw [hdrawn]
      exact d.sameSize_drawnOn m.screen
    have hplaces : allPlaces m'.screen rest = allPlaces m.screen rest :=
      congrArg rest.flatMap (funext fun d => d.places_of_sameSize hsize)
    rw [ih (hs.of_sameSize hsize), hplaces, hdrawn]
    show _ = (Screen.invertAll (m.screen, false) (d.places m.screen ++ allPlaces m.screen rest)).1
    rw [Screen.invertAll, Screen.invertAll, List.foldl_append]
    exact Screen.fst_invertAll (d.drawnOn m.screen).1 (allPlaces m.screen rest) false _

/-- Lists of stamps that meet each place equally often, up to pairs, leave the same screen. -/
theorem Draws.eq_of_counts {stamps' : List Stamp} {flags' : List UInt8} {s₁ s₂ : Screen}
    (hs : s.WellFormed) (h : Draws s stamps flags s₁) (h' : Draws s stamps' flags' s₂)
    (hcounts : ∀ place, (allPlaces s stamps').count place % 2 =
      (allPlaces s stamps).count place % 2) : s₂ = s₁ := by
  rw [h.screen_eq hs, h'.screen_eq hs]
  exact Screen.invertAll_eq_of_counts hs (inside_of_mem_allPlaces hs) (inside_of_mem_allPlaces hs)
    hcounts

/-- A stamp that is drawn twice in a row might as well be left out. -/
theorem Draws.eq_of_twice {earlier later : List Stamp} {flags' : List UInt8} {s₁ s₂ : Screen}
    (hs : s.WellFormed) (h : Draws s (earlier ++ later) flags s₁)
    (h' : Draws s (earlier ++ d :: d :: later) flags' s₂) : s₂ = s₁ := by
  refine h.eq_of_counts hs h' fun place => ?_
  have hsplit : allPlaces s (earlier ++ later) = allPlaces s earlier ++ allPlaces s later :=
    List.flatMap_append
  have hsplit' : allPlaces s (earlier ++ d :: d :: later) =
      allPlaces s earlier ++ (d.places s ++ (d.places s ++ allPlaces s later)) :=
    List.flatMap_append
  rw [hsplit, hsplit', List.count_append, List.count_append, List.count_append, List.count_append]
  omega

theorem Draws.wellFormed (h : Draws s stamps flags s') (hs : s.WellFormed) : s'.WellFormed := by
  rw [h.screen_eq hs]
  exact hs.of_sameSize (Screen.sameSize_invertAll (s, false) _)

/-- Drawing can be cut between any two stamps. -/
theorem Draws.split {earlier later : List Stamp} {before after : List UInt8}
    (h : Draws s (earlier ++ later) (before ++ after) s') (hlen : before.length = earlier.length) :
    ∃ u, Draws s earlier before u ∧ Draws u later after s' := by
  induction earlier generalizing s before with
  | nil =>
    cases List.length_eq_zero_iff.mp hlen
    exact ⟨s, .nil s, h⟩
  | cons d rest ih =>
    cases before with
    | nil => cases hlen
    | cons f before =>
      cases h with
      | cons hsetUp hrun hrest =>
        obtain ⟨u, hearlier, hlater⟩ := ih hrest (Nat.succ.inj hlen)
        exact ⟨u, .cons hsetUp hrun hearlier, hlater⟩

/-- The flag of the stamp that is drawn first. -/
theorem Draws.flag_eq {f : UInt8} (h : Draws s (d :: stamps) (f :: flags) s') (hs : s.WellFormed) :
    f = flagOf (d.drawnOn s).2 ∧ Draws (d.drawnOn s).1 stamps flags s' := by
  cases h with
  | cons hsetUp hrun hrest =>
    rw [hsetUp.screen_eq hs hrun] at hrest
    exact ⟨hsetUp.flag_eq hs hrun, hrest⟩

/-- Of two flags in a row that a stamp leaves, one is set if the stamp has a set bit. -/
theorem Draws.flags_of_twice {f g : UInt8} (h : Draws s (d :: d :: stamps) (f :: g :: flags) s')
    (hs : s.WellFormed) :
    (d.HasSetBit → f = 1 ∨ g = 1) ∧ (¬ d.HasSetBit → f = 0 ∧ g = 0) := by
  obtain ⟨rfl, hrest⟩ := h.flag_eq hs
  obtain ⟨rfl, _⟩ := hrest.flag_eq (hs.of_sameSize (d.sameSize_drawnOn s))
  refine ⟨fun hbit => ?_, fun hbit => ?_⟩
  · rw [flagOf_eq_one_iff, flagOf_eq_one_iff]
    exact Stamp.drawnOn_again hs hbit
  · rw [Stamp.drawnOn_of_not_hasSetBit hbit, Stamp.drawnOn_of_not_hasSetBit hbit]
    exact ⟨rfl, rfl⟩

/-! ### Machines that are set up -/

/-- A machine with the given screen that is set up for the stamp. -/
def ready (s : Screen) (d : Stamp) : Machine :=
  { settings := {}, memory := Memory.blank.write 0 d.rows, index := 0, timers := {}
    registers := Registers.cleared.overwrite [d.left, d.top], screen := s
    keypad := {}, random := .cycle #[] }

theorem setUp_ready (s : Screen) {d : Stamp} (hlen : d.rows.length ≤ Memory.capacity) :
    (ready s d).SetUp 0 1 d := by
  have hfits : 0 + d.rows.length ≤ Memory.blank.size := by
    rw [Memory.size_blank]
    omega
  refine ⟨(Memory.size_write _ _ _).trans Memory.size_blank, ?_, Memory.block_write hfits, ?_, ?_⟩
  · show 0 + d.rows.length ≤ Memory.capacity
    omega
  · exact Vector.getElem_ofFn (by decide)
  · exact Vector.getElem_ofFn (by decide)

/-- Any stamps can be drawn on any screen, as long as each of them fits into memory. -/
theorem exists_draws (hs : s.WellFormed) (hlen : ∀ d ∈ stamps, d.rows.length ≤ Memory.capacity) :
    ∃ flags s', Draws s stamps flags s' := by
  induction stamps generalizing s with
  | nil => exact ⟨[], s, .nil s⟩
  | cons d rest ih =>
    have hsetUp := setUp_ready s (hlen d List.mem_cons_self)
    have hwell := hs.of_sameSize (d.sameSize_drawnOn s)
    obtain ⟨flags, s', hrest⟩ := ih hwell fun d' hmem => hlen d' (List.mem_cons_of_mem _ hmem)
    exact ⟨_, s', .cons hsetUp (hsetUp.run hs) hrest⟩

/-! ### The algebra of drawing -/

/-- The laws of drawing stamps on a screen. -/
structure DrawingLaws (s : Screen) : Prop where
  exists_draws : ∀ stamps : List Stamp, (∀ d ∈ stamps, d.rows.length ≤ Memory.capacity) →
    ∃ flags s', Draws s stamps flags s'
  order : ∀ {stamps stamps' flags flags' s₁ s₂}, stamps.Perm stamps' → Draws s stamps flags s₁ →
    Draws s stamps' flags' s₂ → s₂ = s₁
  twice : ∀ {earlier d later flags flags' s₁ s₂}, Draws s (earlier ++ later) flags s₁ →
    Draws s (earlier ++ d :: d :: later) flags' s₂ → s₂ = s₁
  flags : ∀ {earlier d later before f g after s'},
    Draws s (earlier ++ d :: d :: later) (before ++ f :: g :: after) s' →
    before.length = earlier.length →
    (d.HasSetBit → f = 1 ∨ g = 1) ∧ (¬ d.HasSetBit → f = 0 ∧ g = 0)
  /-- One machine can be set up for both of two draws in a row. -/
  again : ∀ {m : Machine} {x y d}, m.screen = s → m.SetUp x y d → x ≠ 15 → y ≠ 15 →
    ∃ m₁ m₂, (execute (.draw x y d.rows.length)).run m = .ok .redraw m₁ ∧
      (execute (.draw x y d.rows.length)).run m₁ = .ok .redraw m₂ ∧
      Draws s [d, d] [m₁.registers.get 15, m₂.registers.get 15] m₂.screen ∧ m₂.screen = s

/-- The order in which stamps are drawn does not matter for the screen, and a stamp drawn twice in a row
leaves it alone. -/
theorem draws_commute_and_cancel (hs : s.WellFormed) : DrawingLaws s := by
  refine ⟨fun stamps hlen => exists_draws hs hlen, ?_, fun h h' => h.eq_of_twice hs h', ?_, ?_⟩
  · intro stamps stamps' flags flags' s₁ s₂ hperm h h'
    have hplaces : (allPlaces s stamps').Perm (allPlaces s stamps) := hperm.symm.flatMap_right _
    refine h.eq_of_counts hs h' fun place => ?_
    rw [hplaces.count_eq place]
  · intro earlier d later before f g after s' h hlen
    obtain ⟨u, hearlier, hlater⟩ := h.split hlen
    exact hlater.flags_of_twice (hearlier.wellFormed hs)
  · rintro m x y d rfl hsetUp hx hy
    have hrun := hsetUp.run hs
    have hsetUp' := hsetUp.again hs hx hy hrun
    have hrun' := hsetUp'.run (hs.of_sameSize (d.sameSize_drawnOn m.screen))
    have hdraws := Draws.cons hsetUp hrun (.cons hsetUp' hrun' (.nil _))
    have hnone : Draws m.screen ([] ++ []) [] m.screen := .nil m.screen
    exact ⟨_, _, hrun, hrun', hdraws, hnone.eq_of_twice hs hdraws⟩

/-- A screen that is smaller than a sprite. -/
def patch : Screen := { rows := 2, cols := 3, cells := #[true, false, true, false, false, true] }

/-- A row of eight pixels, which meets some cells of the patch three times. -/
def dash : Stamp := { rows := [0xFF], left := 7, top := 3 }

/-- Two pixels at opposite corners of a sprite. -/
def corners : Stamp := { rows := [0x80, 0x00, 0x01], left := 200, top := 1 }

theorem draws_commute_and_cancel_patch : patch.WellFormed ∧
    (∃ flags flags' s', Draws patch [dash, corners] flags s' ∧ Draws patch [corners, dash] flags' s') ∧
    ∀ e f g s', Draws patch [corners, dash, dash] [e, f, g] s' → f = 1 ∨ g = 1 := by
  have hwell : patch.WellFormed := ⟨by decide, by decide, by decide⟩
  have hlaws := draws_commute_and_cancel hwell
  obtain ⟨flags, s₁, h⟩ := hlaws.exists_draws [dash, corners] (by decide)
  obtain ⟨flags', s₂, h'⟩ := hlaws.exists_draws [corners, dash] (by decide)
  have hsame : s₂ = s₁ := hlaws.order (List.Perm.swap corners dash []) h h'
  refine ⟨hwell, ⟨flags, flags', s₁, h, ?_⟩, ?_⟩
  · rw [← hsame]
    exact h'
  · intro e f g s' hdraws
    have hflags := @DrawingLaws.flags _ hlaws [corners] dash [] [e] f g [] s' hdraws rfl
    exact hflags.1 (by decide)

end Machine

end Chip8
