import Chip8.Proofs.Machine.Frame

/-!
# Arithmetic of two registers

An operation on registers `x` and `y` reads both before it writes, and writes the flag last. So its
result and its flag follow from the values before it, also where `x` and `y` are the same register or
one of them is the flag's.

* `AluOp.bitwise?` is the value that an operation without a flag leaves in register `x`.
* `AluOp.Balances` is the equation between numbers that ties the result and the flag of the others to
  the values before. It has one solution only (`AluOp.Balances.unique`).

Every operation goes through, and leaves just what these ask for (`Machine.alu_combines`): the flag wins
where `x` is its register, and no other register is written.
-/

namespace Chip8

namespace AluOp

/-- The word for an operation on two registers. -/
def word (op : AluOp) (x y : Fin 16) : UInt16 :=
  UInt16.ofNat (0x8000 + 0x100 * x + 0x10 * y + op.code)

/-- What an operation makes of two bytes, where it does not set the flag. -/
def bitwise? (op : AluOp) (a b : Nat) : Option Nat :=
  match op with
  | .copy => some b
  | .or => some (a ||| b)
  | .and => some (a &&& b)
  | .xor => some (a ^^^ b)
  | .add | .sub | .shiftRight | .subFrom | .shiftLeft => none

/-- The equation between the numbers `a` and `b` in the registers before, the result and the flag. -/
def Exact (op : AluOp) (a b r f : Int) : Prop :=
  match op with
  | .add => a + b = r + 256 * f
  | .sub => a - b = r - 256 * (1 - f)
  | .subFrom => b - a = r - 256 * (1 - f)
  | .shiftRight => b = 2 * r + f
  | .shiftLeft => 2 * b = r + 256 * f
  | .copy | .or | .and | .xor => False

/-- A byte and a flag for which the equation holds. -/
structure Balances (op : AluOp) (a b r f : Int) : Prop where
  nonneg : 0 ≤ r
  le : r ≤ 255
  flag : f = 0 ∨ f = 1
  equation : op.Exact a b r f

variable {op : AluOp}

theorem decode?_word (op : AluOp) (x y : Fin 16) :
    Instruction.decode? (op.word x y) = some (.alu op x y) := by
  have hcode : op.code < 16 := by cases op <;> decide
  have hx : (x : Nat) < 16 := x.isLt
  have hy : (y : Nat) < 16 := y.isLt
  have hword : (op.word x y).toNat = 0x8000 + 0x100 * x + 0x10 * y + op.code :=
    Nat.mod_eq_of_lt (by omega)
  have hkind : Word.kind (op.word x y) = 0x8 := by rw [Word.kind, hword]; omega
  have hn : Word.n (op.word x y) = op.code := by rw [Word.n, hword]; omega
  have hdecode := (Instruction.Denotes.alu hkind hn).decode?
  have hx' : Word.x (op.word x y) = x := by rw [Word.x, hword]; omega
  have hy' : Word.y (op.word x y) = y := by rw [Word.y, hword]; omega
  rw [hx', hy'] at hdecode
  exact hdecode

/-- A byte and a flag are read off the equation in one way only. -/
theorem Balances.unique {a b r f r' f' : Int} (h : op.Balances a b r f)
    (h' : op.Balances a b r' f') : r' = r ∧ f' = f := by
  obtain ⟨hnonneg, hle, hflag, hexact⟩ := h
  obtain ⟨hnonneg', hle', hflag', hexact'⟩ := h'
  cases op with
  | copy | or | and | xor => exact hexact.elim
  | add | sub | shiftRight | subFrom | shiftLeft =>
    simp only [Exact] at hexact hexact'
    omega

/-- Adding goes on at zero beyond the highest byte, and the flag stands for what was dropped. -/
theorem exact_add (a b : UInt8) :
    Exact .add a.toNat b.toNat (a + b).toNat (flagOf (256 ≤ a.toNat + b.toNat)).toNat := by
  have ha : a.toNat < 256 := a.toNat_lt
  have hb : b.toNat < 256 := b.toNat_lt
  rw [Exact, UInt8.toNat_add, toNat_flagOf]
  simp only [decide_eq_true_eq]
  split <;> omega

/-- Subtracting goes on at the highest byte below zero, and the flag says that this was not needed. -/
theorem exact_sub (a b : UInt8) : Exact .sub a.toNat b.toNat (a - b).toNat (flagOf (b ≤ a)).toNat := by
  have ha : a.toNat < 256 := a.toNat_lt
  have hb : b.toNat < 256 := b.toNat_lt
  rw [Exact, UInt8.toNat_sub, toNat_flagOf]
  simp only [decide_eq_true_eq, UInt8.le_iff_toNat_le]
  split <;> omega

theorem exact_shiftRight (a b : UInt8) :
    Exact .shiftRight a.toNat b.toNat (b / 2).toNat (b % 2).toNat := by
  rw [Exact, UInt8.toNat_div, UInt8.toNat_mod]
  show (b.toNat : Int) = 2 * ((b.toNat / 2 : Nat) : Int) + ((b.toNat % 2 : Nat) : Int)
  omega

theorem exact_shiftLeft (a b : UInt8) :
    Exact .shiftLeft a.toNat b.toNat (b * 2).toNat (b / 128).toNat := by
  have hb : b.toNat < 256 := b.toNat_lt
  rw [Exact, UInt8.toNat_mul, UInt8.toNat_div]
  show 2 * (b.toNat : Int) = ((b.toNat * 2 % 256 : Nat) : Int) + 256 * ((b.toNat / 128 : Nat) : Int)
  omega

theorem flag_cases {a b flag : UInt8} (h : (op.apply a b).2 = some flag) : flag = 0 ∨ flag = 1 := by
  cases op with
  | copy | or | and | xor => cases h
  | add | sub | subFrom =>
    cases h
    exact flagOf_cases _
  | shiftRight =>
    cases h
    have hlow : (b % 2).toNat = b.toNat % 2 := UInt8.toNat_mod _ _
    exact (Nat.mod_two_eq_zero_or_one b.toNat).imp (fun hbit => UInt8.toNat_inj.mp (hlow.trans hbit))
      fun hbit => UInt8.toNat_inj.mp (hlow.trans hbit)
  | shiftLeft =>
    cases h
    have hb : b.toNat < 256 := b.toNat_lt
    have hhigh : (b / 128).toNat = b.toNat / 128 := UInt8.toNat_div _ _
    have hbit : b.toNat / 128 = 0 ∨ b.toNat / 128 = 1 := by omega
    exact hbit.imp (fun hbit => UInt8.toNat_inj.mp (hhigh.trans hbit))
      fun hbit => UInt8.toNat_inj.mp (hhigh.trans hbit)

theorem exact_apply {a b flag : UInt8} (h : (op.apply a b).2 = some flag) :
    op.Exact a.toNat b.toNat (op.apply a b).1.toNat flag.toNat := by
  cases op with
  | copy | or | and | xor => cases h
  | add =>
    cases h
    exact exact_add a b
  | sub =>
    cases h
    exact exact_sub a b
  | subFrom =>
    cases h
    exact exact_sub b a
  | shiftRight =>
    cases h
    exact exact_shiftRight a b
  | shiftLeft =>
    cases h
    exact exact_shiftLeft a b

/-- The result and the flag of an operation solve its equation. -/
theorem balances_apply {a b flag : UInt8} (h : (op.apply a b).2 = some flag) :
    op.Balances a.toNat b.toNat (op.apply a b).1.toNat flag.toNat := by
  have hresult : (op.apply a b).1.toNat < 256 := UInt8.toNat_lt _
  refine ⟨Int.natCast_nonneg _, by omega, ?_, exact_apply h⟩
  rcases flag_cases h with rfl | rfl
  · exact .inl rfl
  · exact .inr rfl

/-- An operation sets the flag if it is not a matter of single bits. -/
theorem apply_of_bitwise? {a b : UInt8} {r : Nat} (h : op.bitwise? a.toNat b.toNat = some r) :
    op.setsFlag = false ∧ (op.apply a b).2 = none ∧ (op.apply a b).1.toNat = r := by
  cases op with
  | copy =>
    cases h
    exact ⟨rfl, rfl, rfl⟩
  | or =>
    cases h
    exact ⟨rfl, rfl, UInt8.toNat_or a b⟩
  | and =>
    cases h
    exact ⟨rfl, rfl, UInt8.toNat_and a b⟩
  | xor =>
    cases h
    exact ⟨rfl, rfl, UInt8.toNat_xor a b⟩
  | add | sub | shiftRight | subFrom | shiftLeft => cases h

theorem exists_flag {a b : UInt8} (h : op.bitwise? a.toNat b.toNat = none) :
    ∃ flag, (op.apply a b).2 = some flag := by
  cases op with
  | copy | or | and | xor => cases h
  | add | sub | shiftRight | subFrom | shiftLeft => exact ⟨_, rfl⟩

end AluOp

/-! ### The registers afterwards -/

namespace Registers

variable {r : Registers} {op : AluOp} {x y : Fin 16}

theorem combine_of_none (h : (op.apply (r.get x) (r.get y)).2 = none) :
    r.combine op x y x.isLt y.isLt = r.set x (op.apply (r.get x) (r.get y)).1 x.isLt := by
  rw [combine]
  split
  · next flag hsome => cases h.symm.trans hsome
  · rfl

theorem combine_of_some {flag : UInt8} (h : (op.apply (r.get x) (r.get y)).2 = some flag) :
    r.combine op x y x.isLt y.isLt = withFlag (r.set x (op.apply (r.get x) (r.get y)).1 x.isLt) flag := by
  rw [combine]
  split
  · next flag' hsome =>
    cases h.symm.trans hsome
    rfl
  · next hnone => cases h.symm.trans hnone

/-- A register that an operation does not write. -/
theorem get_combine_of_ne {k : Fin 16} (hk : k ≠ x) (hflag : op.setsFlag = true → k ≠ 15) :
    (r.combine op x y x.isLt y.isLt).get k = r.get k := by
  have hsame : (r.combine op x y x.isLt y.isLt)[(k : Nat)]? = r[(k : Nat)]? :=
    getElem?_combine_of_ne x.isLt y.isLt (fun h => hk (Fin.ext h))
      (fun hsets h => hflag hsets (Fin.ext h))
  rw [Vector.getElem?_eq_getElem k.isLt, Vector.getElem?_eq_getElem k.isLt] at hsame
  exact Option.some.inj hsame

end Registers

namespace Machine

open Exec

/-- What an operation leaves, and what it leaves alone. The registers are compared with the numbers that
were in registers `x` and `y` before. -/
structure Combined (m : Machine) (op : AluOp) (x y : Fin 16) (m' : Machine) : Prop where
  frame : m' = { m with registers := m'.registers }
  bitwise : ∀ r, op.bitwise? (m.registers.get x).toNat (m.registers.get y).toNat = some r →
    (m'.registers.get x).toNat = r ∧ ∀ k : Fin 16, k ≠ x → m'.registers.get k = m.registers.get k
  balanced : op.bitwise? (m.registers.get x).toNat (m.registers.get y).toNat = none →
    ∃ r f : Int, op.Balances (m.registers.get x).toNat (m.registers.get y).toNat r f ∧
      (∀ r' f', op.Balances (m.registers.get x).toNat (m.registers.get y).toNat r' f' → r' = r ∧ f' = f) ∧
      ((m'.registers.get 15).toNat : Int) = f ∧ (x ≠ 15 → ((m'.registers.get x).toNat : Int) = r) ∧
      ∀ k : Fin 16, k ≠ x → k ≠ 15 → m'.registers.get k = m.registers.get k

theorem run_alu (m : Machine) (op : AluOp) (x y : Fin 16) :
    (execute (.alu op x y)).run m =
      .ok .quiet { m with registers := m.registers.combine op x y x.isLt y.isLt } := by
  have hends : Ends (execute (.alu op x y)) m
      ⟨fun notice m' => notice = .quiet ∧
        m' = { m with registers := m.registers.combine op x y x.isLt y.isLt },
        fun _ _ => False, False⟩ := by
    rw [execute]
    refine ends_bind (ends_bind (ends_alu (fun hx hy => ?_) (fun hbad => hbad ⟨x.isLt, y.isLt⟩)))
    exact ends_pure (ends_bind (ends_modify (ends_pure ⟨rfl, rfl⟩)))
  exact hends.run_eq

/-- Every operation on two registers goes through, and leaves the result and the flag that follow from
the values before it. -/
theorem alu_combines (m : Machine) (op : AluOp) (x y : Fin 16) :
    Instruction.decode? (op.word x y) = some (.alu op x y) ∧
      ∃ m', (execute (.alu op x y)).run m = .ok .quiet m' ∧ m.Combined op x y m' := by
  refine ⟨op.decode?_word x y, _, run_alu m op x y, rfl, ?_, ?_⟩
  · intro r hr
    obtain ⟨hsets, hnone, hresult⟩ := AluOp.apply_of_bitwise? hr
    refine ⟨?_, fun k hk => ?_⟩
    · show ((m.registers.combine op x y x.isLt y.isLt).get x).toNat = r
      rw [Registers.combine_of_none hnone, ← hresult]
      exact congrArg UInt8.toNat (Vector.getElem_set_self x.isLt)
    · refine Registers.get_combine_of_ne hk fun h => ?_
      cases hsets.symm.trans h
  · intro hnone
    obtain ⟨flag, hflag⟩ := AluOp.exists_flag hnone
    have hbalances := AluOp.balances_apply hflag
    refine ⟨_, _, hbalances, fun r' f' h => hbalances.unique h, ?_, fun hx => ?_, fun k hk hk15 => ?_⟩
    · show ((((m.registers.combine op x y x.isLt y.isLt).get 15).toNat : Nat) : Int) = flag.toNat
      rw [Registers.combine_of_some hflag]
      exact congrArg (fun v : UInt8 => (v.toNat : Int)) (Registers.get_withFlag_self _ _)
    · show ((((m.registers.combine op x y x.isLt y.isLt).get x).toNat : Nat) : Int) = _
      rw [Registers.combine_of_some hflag]
      refine congrArg (fun v : UInt8 => (v.toNat : Int)) ?_
      exact (Registers.get_withFlag_of_ne _ _ hx).trans (Vector.getElem_set_self x.isLt)
    · exact Registers.get_combine_of_ne hk fun _ => hk15

end Machine

end Chip8
