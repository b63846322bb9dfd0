import Chip8.Proofs.Instruction.Operands
import Chip8.Proofs.Machine.Ending
import Chip8.Proofs.Screen.Drawing

/-!
# What an instruction does

`Exec.Effect m instruction flow notice m'` lists, with one rule for each instruction, how an
instruction that goes through changes the machine, where execution goes on and what those who watch
are told. `Exec.Failure m instruction e m'` lists the errors on which an instruction can halt, and
the machine that it then leaves.

`Exec.ends_perform` says that nothing else can happen: carrying out an instruction has an effect of
the first list or a failure of the second, or it faults, and it can only fault if an operand is out
of range or the screen is not well-formed. All that is proved about single instructions is a case
analysis of these two relations.
-/

namespace Chip8

/-- The registers after an operation on two of them. The flag is written last. -/
def Registers.combine (r : Registers) (op : AluOp) (x y : Nat) (hx : x < 16) (hy : y < 16) :
    Registers :=
  match (op.apply r[x] r[y]).2 with
  | some flag => Registers.withFlag (r.set x (op.apply r[x] r[y]).1) flag
  | none => r.set x (op.apply r[x] r[y]).1

/-- The bytes of memory that an instruction accesses from the index register on. -/
def Instruction.blockLength? : Instruction → Option Nat
  | .draw _ _ n => some n
  | .register .storeDigits _ => some 3
  | .register .storeRegisters x | .register .loadRegisters x => some (x + 1)
  | _ => none

namespace Exec

/-- The sum of the index register and register `x`, which does not go beyond the highest word. -/
def indexSum (m : Machine) (x : Nat) (hx : x < 16) : Nat :=
  min (m.index.toNat + m.registers[x].toNat) 0xFFFF

/-- What an instruction that goes through does, and where execution goes on. -/
inductive Effect (m : Machine) : Instruction → Flow → Notice → Machine → Prop
  | clear : Effect m .clear .next .redraw { m with screen := m.screen.clear }
  | ret {address : UInt16} {stack : CallStack} (hpop : m.stack.pop = .ok (address, stack)) :
      Effect m .ret (.jump address) .quiet { m with stack }
  | jump {nnn : UInt16} : Effect m (.jump nnn) (.jump nnn) .quiet m
  | call {nnn : UInt16} {stack : CallStack} (hpush : m.stack.push m.pc = .ok stack) :
      Effect m (.call nnn) (.jump nnn) .quiet { m with stack }
  | skipIfEqual {x : Nat} {nn : UInt8} (hx : x < 16) :
      Effect m (.skipIfEqual x nn) (.skipIf (m.registers[x] == nn)) .quiet m
  | skipIfNotEqual {x : Nat} {nn : UInt8} (hx : x < 16) :
      Effect m (.skipIfNotEqual x nn) (.skipIf (m.registers[x] != nn)) .quiet m
  | skipIfSame {x y : Nat} (hx : x < 16) (hy : y < 16) :
      Effect m (.skipIfSame x y) (.skipIf (m.registers[x] == m.registers[y])) .quiet m
  | set {x : Nat} {nn : UInt8} (hx : x < 16) :
      Effect m (.set x nn) .next .quiet { m with registers := m.registers.set x nn }
  | add {x : Nat} {nn : UInt8} (hx : x < 16) :
      Effect m (.add x nn) .next .quiet
        { m with registers := m.registers.set x (m.registers[x] + nn) }
  | alu {op : AluOp} {x y : Nat} (hx : x < 16) (hy : y < 16) :
      Effect m (.alu op x y) .next .quiet
        { m with registers := m.registers.combine op x y hx hy }
  | skipIfDifferent {x y : Nat} (hx : x < 16) (hy : y < 16) :
      Effect m (.skipIfDifferent x y) (.skipIf (m.registers[x] != m.registers[y])) .quiet m
  | setIndex {nnn : UInt16} : Effect m (.setIndex nnn) .next .quiet { m with index := nnn }
  | jumpPlus {nnn : UInt16} :
      Effect m (.jumpPlus nnn) (.jump (nnn + m.registers[0].toUInt16)) .quiet m
  | random {x : Nat} {nn : UInt8} (hx : x < 16) :
      Effect m (.random x nn) .next .quiet
        { m with
          registers := m.registers.set x (nn &&& m.random.take.1)
          random := m.random.take.2 }
  | draw {x y n : Nat} {screen : Screen} {erased : Bool} (hx : x < 16) (hy : y < 16)
      (hblock : m.memory.checkBlock m.index.toNat n = .ok ())
      (hdraw : m.screen.drawSprite (m.registers[x].toNat % m.screen.cols)
        (m.registers[y].toNat % m.screen.rows) (m.memory.block m.index.toNat n)
          = .ok (screen, erased)) :
      Effect m (.draw x y n) .next .redraw
        { m with screen, registers := m.registers.withFlag (flagOf erased) }
  | skipIfHeld {x : Nat} (hx : x < 16) :
      Effect m (.skipIfHeld x) (.skipIf (m.keypad.contains m.registers[x]).2) .quiet
        { m with keypad := (m.keypad.contains m.registers[x]).1 }
  | skipIfNotHeld {x : Nat} (hx : x < 16) :
      Effect m (.skipIfNotHeld x) (.skipIf (!(m.keypad.contains m.registers[x]).2)) .quiet
        { m with keypad := (m.keypad.contains m.registers[x]).1 }
  | getDelay {x : Nat} (hx : x < 16) :
      Effect m (.register .getDelay x) .next .quiet
        { m with registers := m.registers.set x m.timers.delay }
  | awaitKey {x : Nat} {key : UInt8} (hx : x < 16) (hkey : m.keypad.awaitKey.2 = .ok key) :
      Effect m (.register .awaitKey x) .next .quiet
        { m with registers := m.registers.set x key, keypad := m.keypad.awaitKey.1 }
  | setDelay {x : Nat} (hx : x < 16) :
      Effect m (.register .setDelay x) .next .quiet
        { m with timers := m.timers.setDelay m.registers[x] }
  | setSound {x : Nat} (hx : x < 16) :
      Effect m (.register .setSound x) .next .quiet
        { m with timers := m.timers.setSound m.registers[x] }
  | addToIndex {x : Nat} (hx : x < 16) :
      Effect m (.register .addToIndex x) .next .quiet
        { m with
          index := UInt16.ofNat (indexSum m x hx)
          registers := if Memory.highestOperand < indexSum m x hx then m.registers.withFlag 1
            else m.registers }
  | pointToGlyph {x : Nat} (hx : x < 16) :
      Effect m (.register .pointToGlyph x) .next .quiet
        { m with index := UInt16.ofNat (Font.glyphAddress (m.registers[x].toNat % 16)) }
  | storeDigits {x : Nat} (hx : x < 16)
      (hblock : m.memory.checkBlock m.index.toNat 3 = .ok ()) :
      Effect m (.register .storeDigits x) .next .quiet
        { m with memory := m.memory.write m.index.toNat (digits m.registers[x]) }
  | storeRegisters {x : Nat} (hx : x < 16)
      (hblock : m.memory.checkBlock m.index.toNat (x + 1) = .ok ()) :
      Effect m (.register .storeRegisters x) .next .quiet
        { m with memory := m.memory.write m.index.toNat (m.registers.toList.take (x + 1)) }
  | loadRegisters {x : Nat} (hx : x < 16)
      (hblock : m.memory.checkBlock m.index.toNat (x + 1) = .ok ()) :
      Effect m (.register .loadRegisters x) .next .quiet
        { m with registers := m.registers.overwrite (m.memory.block m.index.toNat (x + 1)) }

/-- How an instruction can halt on an error, and the machine that it leaves. -/
inductive Failure (m : Machine) : Instruction → ExecutionError → Machine → Prop
  | ret {cause : CallStackError} (hpop : m.stack.pop = .error cause) :
      Failure m .ret (.stack cause) m
  | call {nnn : UInt16} {cause : CallStackError} (hpush : m.stack.push m.pc = .error cause) :
      Failure m (.call nnn) (.stack cause) m
  | block {instruction : Instruction} {len : Nat} {cause : MemoryError}
      (hlen : instruction.blockLength? = some len)
      (hblock : m.memory.checkBlock m.index.toNat len = .error cause) :
      Failure m instruction (.memory cause) m
  | awaitKey {x : Nat} {cause : KeyWaitError} (hkey : m.keypad.awaitKey.2 = .error cause) :
      Failure m (.register .awaitKey x) .interrupted { m with keypad := m.keypad.awaitKey.1 }

/-- An instruction that halts has changed nothing but the keypad, by what others did to it during a
wait. -/
theorem Failure.frame {m m' : Machine} {instruction : Instruction} {e : ExecutionError}
    (h : Failure m instruction e m') : m' = { m with keypad := m'.keypad } := by
  cases h <;> rfl

/-- A fault has one of two reasons: an operand that no word can express, or a screen that cannot be
made. -/
def MayFault (m : Machine) (instruction : Instruction) : Prop :=
  ¬ (instruction.InRange ∧ m.screen.WellFormed)

/-- The ending of an instruction. -/
def outcome (m : Machine) (instruction : Instruction) : Ending (Flow × Notice) where
  returned result m' := Effect m instruction result.1 result.2 m'
  failed e m' := Failure m instruction e m'
  faulted := MayFault m instruction

/-! ### The operations that are not primitive -/

variable {m : Machine}

theorem ends_alu {op : AluOp} {x y : Nat} {q : Ending Unit}
    (hok : ∀ (hx : x < 16) (hy : y < 16),
      q.returned () { m with registers := m.registers.combine op x y hx hy })
    (hfault : ¬ (x < 16 ∧ y < 16) → q.faulted) :
    Ends (alu op x y) m q := by
  rw [alu]
  refine ends_bind (ends_register (fun hx => ?_) (fun hx => hfault (by omega)))
  refine ends_bind (ends_register (fun hy => ?_) (fun hy => hfault (by omega)))
  dsimp only
  have hok' := hok hx hy
  rw [Registers.combine] at hok'
  rcases happly : op.apply m.registers[x] m.registers[y] with ⟨result, _ | flag⟩
  · rw [happly] at hok'
    exact ends_bind (ends_setRegister (fun _ => ends_pure hok') (fun h => by omega))
  · rw [happly] at hok'
    exact ends_bind (ends_setRegister (fun _ => ends_setFlag hok') (fun h => by omega))

theorem eq_mod_of_checkedMod {a b c : Nat} (h : checkedMod a b = .ok c) : c = a % b := by
  rw [checkedMod] at h
  split at h
  · cases h
  · cases h
    rfl

theorem eq_zero_of_checkedMod {a b : Nat} {f : Fault} (h : checkedMod a b = .error f) :
    b = 0 := by
  rw [checkedMod] at h
  split at h
  · next hb => exact hb
  · cases h

theorem length_block_le (memory : Memory) (start len : Nat) :
    (memory.block start len).length ≤ len := by
  rw [Memory.block]
  rw [Array.length_toList, Array.size_extract]
  omega

/-- The sprites that an instruction draws: the corner is given by two bytes, and the rows are a
block of memory. -/
theorem drawSprite_block {s : Screen} (hs : s.WellFormed) (a b : UInt8) (memory : Memory)
    (start : Nat) {n : Nat} (hn : n ≤ 0x1000) :
    s.drawSprite (a.toNat % s.cols) (b.toNat % s.rows) (memory.block start n) =
      .ok (Screen.invertAll (s, false)
        (s.landings (a.toNat % s.cols) (b.toNat % s.rows) (memory.block start n))) := by
  have hbyte : ∀ (c : UInt8) (span : Nat), c.toNat % span < 0x1000 := by
    intro c span
    have hc : c.toNat < 0x100 := c.toNat_lt
    have hmod : c.toNat % span ≤ c.toNat := Nat.mod_le _ _
    omega
  have hlen : (memory.block start n).length ≤ 0x1000 :=
    Nat.le_trans (length_block_le memory start n) hn
  exact Screen.drawSprite_eq_ok hs (hbyte a s.cols) (hbyte b s.rows) hlen

/-- Drawing faults where the block, a register, a remainder or a cell is missing; none of them is if
the registers exist, the sprite is not too high and the screen is well-formed. -/
theorem ends_draw {x y n : Nat} {q : Ending Unit}
    (hok : ∀ m', Effect m (.draw x y n) .next .redraw m' → q.returned () m')
    (herror : ∀ cause, m.memory.checkBlock m.index.toNat n = .error cause →
      q.failed (.memory cause) m)
    (hfault : ¬ (x < 16 ∧ y < 16 ∧ n ≤ 0x1000 ∧ m.screen.WellFormed) → q.faulted) :
    Ends (draw x y n) m q := by
  rw [draw]
  refine ends_bind (ends_indexedBlock (fun hblock => ends_bind (ends_get ?_)) herror
    (fun hn => hfault ?_))
  refine ends_bind (ends_register (fun hx => ?_) (fun hx => hfault ?_))
  refine ends_bind (ends_checked (fun left hleft => ?_) (fun f hf => hfault ?_))
  refine ends_bind (ends_register (fun hy => ?_) (fun hy => hfault ?_))
  refine ends_bind (ends_checked (fun top htop => ?_) (fun f hf => hfault ?_))
  cases eq_mod_of_checkedMod hleft
  cases eq_mod_of_checkedMod htop
  refine ends_bind (ends_checked (fun drawn hdraw => ?_) (fun f hf => hfault ?_))
  · obtain ⟨screen, erased⟩ := drawn
    exact ends_bind (ends_modify (ends_setFlag (hok _ (.draw hx hy hblock hdraw))))
  · intro hgood
    obtain ⟨_, _, hn, hwell⟩ := hgood
    rw [drawSprite_block hwell m.registers[x] m.registers[y] m.memory m.index.toNat hn] at hf
    cases hf
  · intro hgood
    exact absurd (eq_zero_of_checkedMod hf) (Nat.ne_of_gt hgood.2.2.2.rows_pos)
  · intro hgood
    have hy' : y < 16 := hgood.2.1
    omega
  · intro hgood
    exact absurd (eq_zero_of_checkedMod hf) (Nat.ne_of_gt hgood.2.2.2.cols_pos)
  · intro hgood
    have hx' : x < 16 := hgood.1
    omega
  · intro hgood
    have hn' : n ≤ 0x1000 := hgood.2.2.1
    omega

theorem ends_isHeld {x : Nat} {q : Ending Bool}
    (hok : ∀ hx : x < 16, q.returned (m.keypad.contains m.registers[x]).2
      { m with keypad := (m.keypad.contains m.registers[x]).1 })
    (hfault : 16 ≤ x → q.faulted) :
    Ends (isHeld x) m q := by
  rw [isHeld]
  exact ends_bind (ends_register (fun hx => ends_modifyGet (hok hx)) hfault)

theorem ends_awaitKey {q : Ending UInt8}
    (hok : ∀ key, m.keypad.awaitKey.2 = .ok key →
      q.returned key { m with keypad := m.keypad.awaitKey.1 })
    (herror : ∀ cause, m.keypad.awaitKey.2 = .error cause →
      q.failed .interrupted { m with keypad := m.keypad.awaitKey.1 }) :
    Ends awaitKey m q := by
  rw [awaitKey]
  exact ends_bind (ends_modifyGet (ends_orError hok herror))

theorem ends_popAddress {q : Ending UInt16}
    (hok : ∀ address stack, m.stack.pop = .ok (address, stack) →
      q.returned address { m with stack })
    (herror : ∀ cause, m.stack.pop = .error cause → q.failed (.stack cause) m) :
    Ends popAddress m q := by
  rw [popAddress]
  refine ends_bind (ends_get (ends_bind (ends_orError (fun popped hpop => ?_) herror)))
  obtain ⟨address, stack⟩ := popped
  exact ends_bind (ends_modify (ends_pure (hok address stack hpop)))

theorem ends_pushAddress {address : UInt16} {q : Ending Unit}
    (hok : ∀ stack, m.stack.push address = .ok stack → q.returned () { m with stack })
    (herror : ∀ cause, m.stack.push address = .error cause → q.failed (.stack cause) m) :
    Ends (pushAddress address) m q := by
  rw [pushAddress]
  refine ends_bind (ends_get (ends_bind (ends_orError (fun stack hpush => ?_) herror)))
  exact ends_modify (hok stack hpush)

theorem ends_addToIndex {x : Nat} {q : Ending Unit}
    (hok : ∀ hx : x < 16, q.returned ()
      { m with
        index := UInt16.ofNat (indexSum m x hx)
        registers := if Memory.highestOperand < indexSum m x hx then m.registers.withFlag 1
          else m.registers })
    (hfault : 16 ≤ x → q.faulted) :
    Ends (addToIndex x) m q := by
  rw [addToIndex]
  refine ends_bind (ends_register (fun hx => ?_) hfault)
  refine ends_bind (ends_get (ends_bind (ends_modify ?_)))
  have hok' := hok hx
  rw [indexSum] at hok'
  dsimp only at hok' ⊢
  split
  · next h =>
    rw [if_pos h] at hok'
    exact ends_setFlag hok'
  · next h =>
    rw [if_neg h] at hok'
    exact ends_pure hok'

/-- A register number that exists has a successor. -/
theorem ends_checkedAdd_one {x : Nat} {q : Ending Nat} (hok : q.returned (x + 1) m)
    (hfault : 16 ≤ x → q.faulted) : Ends (checked (checkedAdd x 1)) m q := by
  rw [checkedAdd]
  split
  · refine ends_checked (fun len hlen => ?_) (fun f hf => ?_)
    · cases hlen
      exact hok
    · cases hf
  · refine ends_checked (fun len hlen => ?_) (fun f hf => ?_)
    · cases hlen
    · exact hfault (by omega)

/-- The glyphs lie far below the highest word. -/
theorem checkedWord_glyphAddress (value : UInt8) :
    checkedWord (Font.glyphAddress (value.toNat % 16)) =
      .ok (UInt16.ofNat (Font.glyphAddress (value.toNat % 16))) := by
  have hlt : Font.glyphAddress (value.toNat % 16) < 0x10000 := by
    rw [Font.glyphAddress, Font.base, Font.glyphBytes]
    omega
  exact if_pos hlt

/-! ### The instructions -/

/-- The ending of an operation on one register. -/
theorem ends_registerOp (op : RegisterOp) (x : Nat) {q : Ending Unit}
    (hok : ∀ m', Effect m (.register op x) .next .quiet m' → q.returned () m')
    (herror : ∀ e m', Failure m (.register op x) e m' → q.failed e m')
    (hfault : 16 ≤ x → q.faulted) :
    Ends (registerOp op x) m q := by
  cases op with
  | getDelay =>
    exact ends_bind (ends_get (ends_setRegister (fun hx => hok _ (.getDelay hx)) hfault))
  | awaitKey =>
    refine ends_bind (ends_awaitKey (fun key hkey => ?_) (fun _ hkey => herror _ _ (.awaitKey hkey)))
    exact ends_setRegister (fun hx => hok _ (.awaitKey hx hkey)) hfault
  | setDelay =>
    exact ends_bind (ends_register (fun hx => ends_modify (hok _ (.setDelay hx))) hfault)
  | setSound =>
    exact ends_bind (ends_register (fun hx => ends_modify (hok _ (.setSound hx))) hfault)
  | addToIndex => exact ends_addToIndex (fun hx => hok _ (.addToIndex hx)) hfault
  | pointToGlyph =>
    refine ends_bind (ends_register (fun hx => ?_) hfault)
    dsimp only
    rw [checkedWord_glyphAddress]
    exact ends_bind (ends_pure (ends_modify (hok _ (.pointToGlyph hx))))
  | storeDigits =>
    refine ends_bind (ends_register (fun hx => ?_) hfault)
    refine ends_bind (ends_indexedBlock (fun hblock => ?_)
      (fun _ hblock => herror _ _ (.block rfl hblock)) (fun h => absurd h (by decide)))
    exact ends_modify (hok _ (.storeDigits hx hblock))
  | storeRegisters =>
    refine ends_bind (ends_checkedAdd_one ?_ hfault)
    refine ends_bind (ends_indexedBlock (fun hblock => ?_)
      (fun _ hblock => herror _ _ (.block rfl hblock)) (fun h => hfault (by omega)))
    refine ends_bind (ends_registersUpTo (fun hx => ?_) hfault)
    exact ends_modify (hok _ (.storeRegisters hx hblock))
  | loadRegisters =>
    refine ends_bind (ends_checkedAdd_one ?_ hfault)
    refine ends_bind (ends_indexedBlock (fun hblock => ?_)
      (fun _ hblock => herror _ _ (.block rfl hblock)) (fun h => hfault (by omega)))
    refine ends_bind (ends_registersUpTo (fun hx => ?_) hfault)
    exact ends_modify (hok _ (.loadRegisters hx hblock))

/-- An instruction ends with one of the listed effects or failures. -/
theorem ends_perform (m : Machine) (instruction : Instruction) :
    Ends (perform instruction) m (outcome m instruction) := by
  have hfault₁ : ∀ {x : Nat}, (instruction.InRange → x < 16) → 16 ≤ x →
      MayFault m instruction := by
    intro x hx hle hgood
    have := hx hgood.1
    omega
  cases instruction with
  | clear => exact ends_bind (ends_modify (ends_pure .clear))
  | ret =>
    exact ends_bind (ends_popAddress (fun _ _ hpop => ends_pure (.ret hpop))
      (fun _ hpop => .ret hpop))
  | jump nnn => exact ends_pure .jump
  | call nnn =>
    refine ends_bind (ends_get (ends_bind ?_))
    exact ends_pushAddress (fun _ hpush => ends_pure (.call hpush)) (fun _ hpush => .call hpush)
  | skipIfEqual x nn =>
    exact ends_bind (ends_register (fun hx => ends_pure (.skipIfEqual hx)) (hfault₁ id))
  | skipIfNotEqual x nn =>
    exact ends_bind (ends_register (fun hx => ends_pure (.skipIfNotEqual hx)) (hfault₁ id))
  | skipIfSame x y =>
    refine ends_bind (ends_register (fun hx => ?_) (hfault₁ And.left))
    exact ends_bind (ends_register (fun hy => ends_pure (.skipIfSame hx hy)) (hfault₁ And.right))
  | set x nn =>
    exact ends_bind (ends_setRegister (fun hx => ends_pure (.set hx)) (hfault₁ id))
  | add x nn =>
    refine ends_bind (ends_register (fun hx => ?_) (hfault₁ id))
    exact ends_bind (ends_setRegister (fun _ => ends_pure (.add hx)) (hfault₁ id))
  | alu op x y =>
    refine ends_bind (ends_alu (fun hx hy => ends_pure (.alu hx hy)) ?_)
    exact fun h hgood => h hgood.1
  | skipIfDifferent x y =>
    refine ends_bind (ends_register (fun hx => ?_) (hfault₁ And.left))
    exact ends_bind
      (ends_register (fun hy => ends_pure (.skipIfDifferent hx hy)) (hfault₁ And.right))
  | setIndex nnn => exact ends_bind (ends_modify (ends_pure .setIndex))
  | jumpPlus nnn =>
    exact ends_bind (ends_register (fun _ => ends_pure .jumpPlus) (fun h => by omega))
  | random x nn =>
    refine ends_bind (ends_modifyGet (ends_bind ?_))
    exact ends_setRegister (fun hx => ends_pure (.random hx)) (hfault₁ id)
  | draw x y n =>
    refine ends_bind (ends_draw (fun _ h => ends_pure h) (fun _ hblock => .block rfl hblock) ?_)
    intro hbad hgood
    obtain ⟨⟨hx, hy, hn⟩, hwell⟩ := hgood
    exact hbad ⟨hx, hy, by omega, hwell⟩
  | skipIfHeld x =>
    exact ends_bind (ends_isHeld (fun hx => ends_pure (.skipIfHeld hx)) (hfault₁ id))
  | skipIfNotHeld x =>
    exact ends_bind (ends_isHeld (fun hx => ends_pure (.skipIfNotHeld hx)) (hfault₁ id))
  | register op x =>
    exact ends_bind
      (ends_registerOp op x (fun _ h => ends_pure h) (fun _ _ h => h) (hfault₁ id))

end Exec

end Chip8
