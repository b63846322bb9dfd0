import Chip8.Proofs.Machine.Stepping
import Chip8.Proofs.Memory.Blocks

/-!
# Storing and loading registers

The registers up to register `x` can be stored from the index register on, and loaded again from there.
`Machine.RegistersStored` and `Machine.RegistersLoaded` say what that does, byte by byte and register by
register, for a block that lies in memory up to its last byte.

* What was stored is loaded again, whatever has happened in between to everything but the index register
  and the block, and the registers above `x` are not touched.
* Storing what has just been loaded changes no byte.
* The three decimal digits that a register is stored as can be loaded, and make up its value.

All of it is `Machine.transfers_round_trip`.
-/

namespace Chip8

namespace Registers

variable {r : Registers} {values : List UInt8}

theorem get_overwrite_of_some {k : Fin 16} {value : UInt8} (h : values[(k : Nat)]? = some value) :
    (r.overwrite values).get k = value := by
  show (Vector.ofFn fun i : Fin 16 => values[i.val]?.getD (r.get i))[(k : Nat)] = value
  rw [Vector.getElem_ofFn]
  dsimp only
  rw [h]
  rfl

theorem get_overwrite_of_le {k : Fin 16} (h : values.length ≤ k) :
    (r.overwrite values).get k = r.get k := by
  show (Vector.ofFn fun i : Fin 16 => values[i.val]?.getD (r.get i))[(k : Nat)] = r.get k
  rw [Vector.getElem_ofFn]
  dsimp only
  rw [List.getElem?_eq_none h]
  rfl

theorem getElem?_take_toList {x k : Fin 16} (hk : k ≤ x) :
    (r.toList.take (x + 1))[(k : Nat)]? = some (r.get k) := by
  rw [List.getElem?_take_of_lt (Nat.lt_succ_of_le hk), Vector.getElem?_toList]
  exact Vector.getElem?_eq_getElem k.isLt

theorem length_take_toList (r : Registers) (x : Fin 16) : (r.toList.take (x + 1)).length = x + 1 := by
  have hx : (x : Nat) < 16 := x.isLt
  rw [List.length_take, Vector.length_toList]
  omega

end Registers

namespace Machine

open Exec

variable {m m' : Machine} {x : Fin 16}

/-- The registers up to register `x` have been stored from the index register on. -/
structure RegistersStored (m : Machine) (x : Fin 16) (m' : Machine) : Prop where
  frame : m' = { m with memory := m'.memory }
  inside : ∀ k : Fin 16, k ≤ x → m'.memory.bytes[m.index.toNat + k]? = some (m.registers.get k)
  outside : ∀ address : Nat, address < m.index.toNat ∨ m.index.toNat + x < address →
    m'.memory.bytes[address]? = m.memory.bytes[address]?

/-- The registers up to register `x` have been loaded from the index register on. -/
structure RegistersLoaded (m : Machine) (x : Fin 16) (m' : Machine) : Prop where
  frame : m' = { m with registers := m'.registers }
  inside : ∀ k : Fin 16, k ≤ x → m.memory.bytes[m.index.toNat + k]? = some (m'.registers.get k)
  outside : ∀ k : Fin 16, x < k → m'.registers.get k = m.registers.get k

/-- The index register and the block of `x + 1` bytes at it are the same in both machines. -/
structure SameBlock (m : Machine) (x : Fin 16) (m' : Machine) : Prop where
  index : m'.index = m.index
  bytes : ∀ k : Fin 16, k ≤ x →
    m'.memory.bytes[m.index.toNat + k]? = m.memory.bytes[m.index.toNat + k]?

/-! ### The instructions -/

/-- An operation on a register goes through if it cannot fail and has one effect only. -/
theorem run_registerOp {op : RegisterOp}
    (heffect : ∀ m₁, Effect m (.register op x) .next .quiet m₁ → m₁ = m')
    (hfailure : ∀ e m₁, ¬ Failure m (.register op x) e m₁) :
    (execute (.register op x)).run m = .ok .quiet m' := by
  have hends : Ends (execute (.register op x)) m
      ⟨fun notice m₁ => notice = .quiet ∧ m₁ = m', fun _ _ => False, False⟩ := by
    rw [execute]
    refine ends_bind (ends_bind (ends_registerOp op x (fun m₁ h => ?_) hfailure ?_))
    · exact ends_pure (ends_bind (ends_modify (ends_pure ⟨rfl, heffect m₁ h⟩)))
    · exact fun hx => absurd x.isLt (Nat.not_lt_of_le hx)
  exact hends.run_eq

/-- An operation on a block that lies in memory does not fail. -/
theorem not_failure_of_block {op : RegisterOp} {len : Nat}
    (hlen : (Instruction.register op x).blockLength? = some len)
    (hfits : m.index.toNat + len ≤ m.memory.size) (e : ExecutionError) (m₁ : Machine) :
    ¬ Failure m (.register op x) e m₁ := by
  intro h
  cases h with
  | block hlen' hblock =>
    cases hlen.symm.trans hlen'
    exact absurd hfits (Nat.not_le_of_lt (Memory.checkBlock_eq_error_iff.mp hblock).1)
  | awaitKey hkey => cases hlen

theorem run_storeRegisters (hfits : m.index.toNat + (x + 1) ≤ m.memory.size) :
    ∃ m', (execute (.register .storeRegisters x)).run m = .ok .quiet m' ∧ m.RegistersStored x m' := by
  refine ⟨{ m with memory := m.memory.write m.index.toNat (m.registers.toList.take (x + 1)) },
    run_registerOp ?_ (not_failure_of_block rfl hfits), rfl, ?_, ?_⟩
  · intro m₁ heffect
    cases heffect
    rfl
  · intro k hk
    have hlen := m.registers.length_take_toList x
    refine (Memory.getElem?_write_of_inside ?_ ?_).trans (Registers.getElem?_take_toList hk)
    · rw [hlen]
      exact Nat.lt_succ_of_le hk
    · rw [hlen]
      exact hfits
  · intro address haddress
    refine Memory.getElem?_write_of_outside _ ?_
    rw [m.registers.length_take_toList x]
    omega

theorem run_loadRegisters (hfits : m.index.toNat + (x + 1) ≤ m.memory.size) :
    ∃ m', (execute (.register .loadRegisters x)).run m = .ok .quiet m' ∧ m.RegistersLoaded x m' := by
  refine ⟨{ m with registers := m.registers.overwrite (m.memory.block m.index.toNat (x + 1)) },
    run_registerOp ?_ (not_failure_of_block rfl hfits), rfl, ?_, ?_⟩
  · intro m₁ heffect
    cases heffect
    rfl
  · intro k hk
    have hk' : (k : Nat) ≤ x := hk
    obtain ⟨value, hvalue⟩ : ∃ value, m.memory.bytes[m.index.toNat + k]? = some value :=
      Memory.exists_byte (by omega)
    have hblock := (Memory.getElem?_block (Nat.lt_succ_of_le hk') hfits).trans hvalue
    show _ = some ((m.registers.overwrite _).get k)
    rw [hvalue, Registers.get_overwrite_of_some hblock]
  · intro k hk
    refine Registers.get_overwrite_of_le ?_
    rw [Memory.length_block hfits]
    exact hk

theorem run_storeDigits (hfits : m.index.toNat + 3 ≤ m.memory.size) :
    (execute (.register .storeDigits x)).run m =
      .ok .quiet { m with memory := m.memory.write m.index.toNat (digits (m.registers.get x)) } := by
  refine run_registerOp ?_ (not_failure_of_block rfl hfits)
  intro m₁ heffect
  cases heffect
  rfl

/-! ### One after the other -/

theorem RegistersStored.index_eq (h : m.RegistersStored x m') : m'.index = m.index := by
  rw [h.frame]

theorem RegistersLoaded.index_eq (h : m.RegistersLoaded x m') : m'.index = m.index := by
  rw [h.frame]

theorem RegistersLoaded.memory_eq (h : m.RegistersLoaded x m') : m'.memory = m.memory := by
  rw [h.frame]

/-- The block that was stored lies in any memory that still has it. -/
theorem SameBlock.fits {later : Machine} (hsame : m'.SameBlock x later)
    (hstored : m.RegistersStored x m') : later.index.toNat + (x + 1) ≤ later.memory.size := by
  have hindex := hstored.index_eq
  have hlast := hsame.bytes x (Nat.le_refl _)
  rw [hindex, hstored.inside x (Nat.le_refl _)] at hlast
  obtain ⟨hlt, _⟩ := Array.getElem?_eq_some_iff.mp hlast
  rw [hsame.index, hindex]
  exact hlt

/-- What was stored is loaded, as long as the block is where and what it was. -/
theorem RegistersLoaded.of_stored {later loaded : Machine} (hloaded : later.RegistersLoaded x loaded)
    (hsame : m'.SameBlock x later) (hstored : m.RegistersStored x m') (k : Fin 16) (hk : k ≤ x) :
    loaded.registers.get k = m.registers.get k := by
  have hindex := hstored.index_eq
  have hbyte := hloaded.inside k hk
  rw [hsame.index, hsame.bytes k hk, hindex, hstored.inside k hk] at hbyte
  exact (Option.some.inj hbyte).symm

/-- Storing what has just been loaded changes no byte. -/
theorem RegistersLoaded.store {loaded stored : Machine} (hloaded : m.RegistersLoaded x loaded)
    (hstored : loaded.RegistersStored x stored) : stored.memory = m.memory := by
  have hindex := hloaded.index_eq
  have hx : (x : Nat) < 16 := x.isLt
  refine Memory.eq_of_bytes fun address => ?_
  by_cases hinside : m.index.toNat ≤ address ∧ address ≤ m.index.toNat + x
  · obtain ⟨k, rfl⟩ := Nat.exists_eq_add_of_le hinside.1
    have hk : k < 16 := by omega
    have hle : (⟨k, hk⟩ : Fin 16) ≤ x := Nat.le_of_add_le_add_left hinside.2
    rw [hloaded.inside ⟨k, hk⟩ hle, ← hindex]
    exact hstored.inside ⟨k, hk⟩ hle
  · rw [hstored.outside address (by rw [hindex]; omega), hloaded.memory_eq]

/-- The digits of a byte are digits, and make it up. -/
theorem digits_value (value : UInt8) :
    (value / 100).toNat ≤ 9 ∧ (value / 10 % 10).toNat ≤ 9 ∧ (value % 10).toNat ≤ 9 ∧
      100 * (value / 100).toNat + 10 * (value / 10 % 10).toNat + (value % 10).toNat = value.toNat := by
  have hlt : value.toNat < 256 := value.toNat_lt
  have hhundreds : (value / 100).toNat = value.toNat / 100 := UInt8.toNat_div _ _
  have htens : (value / 10 % 10).toNat = value.toNat / 10 % 10 := by
    rw [UInt8.toNat_mod, UInt8.toNat_div]
    rfl
  have hones : (value % 10).toNat = value.toNat % 10 := UInt8.toNat_mod _ _
  omega

/-- The digits that a register is stored as are loaded into the first three registers. -/
theorem run_loadDigits (hfits : m.index.toNat + 3 ≤ m.memory.size) :
    ∃ m', (execute (.register .loadRegisters 2)).run
        { m with memory := m.memory.write m.index.toNat (digits (m.registers.get x)) } = .ok .quiet m' ∧
      m'.registers.get 0 = m.registers.get x / 100 ∧ m'.registers.get 1 = m.registers.get x / 10 % 10 ∧
      m'.registers.get 2 = m.registers.get x % 10 := by
  let stored : Machine := { m with memory := m.memory.write m.index.toNat (digits (m.registers.get x)) }
  have hfits' : stored.index.toNat + ((2 : Fin 16) + 1) ≤ stored.memory.size := by
    show m.index.toNat + 3 ≤ (m.memory.write _ _).size
    rw [Memory.size_write]
    exact hfits
  obtain ⟨m', hrun, hloaded⟩ := run_loadRegisters hfits'
  have hdigit : ∀ k : Fin 16, k ≤ 2 →
      (digits (m.registers.get x))[(k : Nat)]? = some (m'.registers.get k) := by
    intro k hk
    rw [← hloaded.inside k hk]
    exact (Memory.getElem?_write_of_inside (Nat.lt_succ_of_le hk) hfits).symm
  refine ⟨m', hrun, ?_, ?_, ?_⟩
  · exact (Option.some.inj (hdigit 0 (by decide))).symm
  · exact (Option.some.inj (hdigit 1 (by decide))).symm
  · exact (Option.some.inj (hdigit 2 (by decide))).symm

/-- Blocks of registers and digits are loaded as they were stored, up to the last byte of memory. -/
theorem transfers_round_trip (hmemory : m.memory.size = Memory.capacity) (x : Fin 16) :
    (m.index.toNat + x ≤ 0xFFF →
      (∃ stored, (execute (.register .storeRegisters x)).run m = .ok .quiet stored ∧
        m.RegistersStored x stored ∧
        ∀ later, stored.SameBlock x later →
          ∃ loaded, (execute (.register .loadRegisters x)).run later = .ok .quiet loaded ∧
            loaded = { later with registers := loaded.registers } ∧
            (∀ k : Fin 16, k ≤ x → loaded.registers.get k = m.registers.get k) ∧
            ∀ k : Fin 16, x < k → loaded.registers.get k = later.registers.get k) ∧
      ∃ loaded stored, (execute (.register .loadRegisters x)).run m = .ok .quiet loaded ∧
        (execute (.register .storeRegisters x)).run loaded = .ok .quiet stored ∧
        stored.memory = m.memory) ∧
    (m.index.toNat + 2 ≤ 0xFFF →
      ∃ stored loaded, (execute (.register .storeDigits x)).run m = .ok .quiet stored ∧
        (execute (.register .loadRegisters 2)).run stored = .ok .quiet loaded ∧
        (loaded.registers.get 0).toNat ≤ 9 ∧ (loaded.registers.get 1).toNat ≤ 9 ∧
        (loaded.registers.get 2).toNat ≤ 9 ∧
        100 * (loaded.registers.get 0).toNat + 10 * (loaded.registers.get 1).toNat +
          (loaded.registers.get 2).toNat = (m.registers.get x).toNat) := by
  have hcapacity : Memory.capacity = 0x1000 := rfl
  refine ⟨fun hinside => ?_, fun hinside => ?_⟩
  · have hfits : m.index.toNat + (x + 1) ≤ m.memory.size := by omega
    refine ⟨?_, ?_⟩
    · obtain ⟨stored, hrun, hstored⟩ := run_storeRegisters hfits
      refine ⟨stored, hrun, hstored, fun later hsame => ?_⟩
      obtain ⟨loaded, hrun', hloaded⟩ := run_loadRegisters (hsame.fits hstored)
      exact ⟨loaded, hrun', hloaded.frame, hloaded.of_stored hsame hstored, hloaded.outside⟩
    · obtain ⟨loaded, hrun, hloaded⟩ := run_loadRegisters hfits
      have hfits' : loaded.index.toNat + (x + 1) ≤ loaded.memory.size := by
        rw [hloaded.frame]
        exact hfits
      obtain ⟨stored, hrun', hstored⟩ := run_storeRegisters hfits'
      exact ⟨loaded, stored, hrun, hrun', hloaded.store hstored⟩
  · have hfits : m.index.toNat + 3 ≤ m.memory.size := by omega
    obtain ⟨loaded, hrun, hhundreds, htens, hones⟩ := run_loadDigits (x := x) hfits
    refine ⟨_, loaded, run_storeDigits hfits, hrun, ?_⟩
    rw [hhundreds, htens, hones]
    exact digits_value (m.registers.get x)

/-- A machine the index register of which leaves room for just sixteen bytes. -/
def brim : Machine :=
  { settings := {}, memory := Memory.blank, index := 0xFF0, timers := {}
    registers := #v[1, 2, 3, 4, 5, 6, 7, 8, 9, 10, 11, 12, 13, 14, 15, 254]
    screen := .blank 1 1, keypad := {}, random := .cycle #[] }

/-- All registers are stored up to the last byte, cleared, and loaded again. The digits of the last one
are loaded as well. -/
theorem transfers_round_trip_brim :
    (∃ stored loaded, (execute (.register .storeRegisters 15)).run brim = .ok .quiet stored ∧
      stored.memory.bytes[0xFFF]? = some 254 ∧
      (execute (.register .loadRegisters 15)).run { stored with registers := Registers.cleared } =
        .ok .quiet loaded ∧ ∀ k : Fin 16, loaded.registers.get k = brim.registers.get k) ∧
    ∃ stored loaded, (execute (.register .storeDigits 15)).run brim = .ok .quiet stored ∧
      (execute (.register .loadRegisters 2)).run stored = .ok .quiet loaded ∧
      100 * (loaded.registers.get 0).toNat + 10 * (loaded.registers.get 1).toNat +
        (loaded.registers.get 2).toNat = 254 := by
  have hmemory : brim.memory.size = Memory.capacity := Memory.size_blank
  obtain ⟨hregisters, hdigits⟩ := transfers_round_trip hmemory 15
  obtain ⟨⟨stored, hrun, hstored, hlater⟩, _⟩ := hregisters (by decide)
  obtain ⟨loaded, hrun', _, hback, _⟩ :=
    hlater { stored with registers := Registers.cleared } ⟨rfl, fun _ _ => rfl⟩
  obtain ⟨stored', loaded', hstore, hload, _, _, _, hsum⟩ := hdigits (by decide)
  exact ⟨⟨stored, loaded, hrun, hstored.inside 15 (by decide), hrun',
    fun k => hback k (Nat.le_of_lt_succ k.isLt)⟩, stored', loaded', hstore, hload, hsum⟩

end Machine

end Chip8
