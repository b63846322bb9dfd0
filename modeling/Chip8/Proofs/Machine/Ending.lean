import Chip8.Machine.Execute

/-!
# How computations on a machine end

A computation goes through, halts on an error, or halts on a fault. `Exec.Ends x m q` says that
the computation `x`, begun on the machine `m`, ends as the `Ending` `q` asks: what it asks of the
value and the machine if the computation goes through, what it asks of the error and the machine if
it halts on an error, and under which condition a fault is allowed at all.

There is one lemma for each way of putting computations together and for each primitive, so that
what an instruction does is read off its definition action by action.
-/

namespace Chip8

/-- What is asked of the end of a computation. -/
structure Ending (α : Type) where
  returned : α → Machine → Prop
  failed : ExecutionError → Machine → Prop
  faulted : Prop

/-- The result of a computation is as asked. -/
def Ending.Met {α : Type} (q : Ending α) : EStateM.Result Halt Machine α → Prop
  | .ok a m => q.returned a m
  | .error (.error e) m => q.failed e m
  | .error (.fault _) _ => q.faulted

namespace Exec

/-- The computation, begun on the given machine, ends as asked. -/
structure Ends {α : Type} (x : Exec α) (m : Machine) (q : Ending α) : Prop where
  met : q.Met (x.run m)

section Combinators

variable {α β : Type} {m : Machine}

theorem ends_pure {a : α} {q : Ending α} (h : q.returned a m) : Ends (pure a) m q := ⟨h⟩

/-- The second computation starts where the first one has gone through; a halt of the first one is
a halt of both. -/
theorem ends_bind {x : Exec α} {f : α → Exec β} {q : Ending β}
    (h : Ends x m ⟨fun a m' => Ends (f a) m' q, q.failed, q.faulted⟩) : Ends (x >>= f) m q := by
  have hx := h.met
  constructor
  rw [EStateM.run_bind]
  cases hrun : x.run m with
  | ok a m' =>
    rw [hrun] at hx
    exact Ends.met hx
  | error halt m' =>
    rw [hrun] at hx
    cases halt <;> exact hx

theorem ends_get {q : Ending Machine} (h : q.returned m m) : Ends get m q := ⟨h⟩

theorem ends_modify {f : Machine → Machine} {q : Ending PUnit} (h : q.returned ⟨⟩ (f m)) :
    Ends (modify f) m q := ⟨h⟩

theorem ends_modifyGet {f : Machine → α × Machine} {q : Ending α}
    (h : q.returned (f m).1 (f m).2) : Ends (modifyGet f) m q := ⟨h⟩

/-! ### Reading an ending off a result -/

theorem Ends.returned {x : Exec α} {q : Ending α} (h : Ends x m q) {a : α} {m' : Machine}
    (hrun : x.run m = .ok a m') : q.returned a m' := by
  have hmet := h.met
  rw [hrun] at hmet
  exact hmet

theorem Ends.failed {x : Exec α} {q : Ending α} (h : Ends x m q) {e : ExecutionError}
    {m' : Machine} (hrun : x.run m = .error (.error e) m') : q.failed e m' := by
  have hmet := h.met
  rw [hrun] at hmet
  exact hmet

theorem Ends.faulted {x : Exec α} {q : Ending α} (h : Ends x m q) {f : Fault} {m' : Machine}
    (hrun : x.run m = .error (.fault f) m') : q.faulted := by
  have hmet := h.met
  rw [hrun] at hmet
  exact hmet

/-- A computation that may not halt goes through. -/
theorem Ends.goesThrough {x : Exec α} {returned : α → Machine → Prop}
    (h : Ends x m ⟨returned, fun _ _ => False, False⟩) :
    ∃ a m', x.run m = .ok a m' ∧ returned a m' := by
  cases hrun : x.run m with
  | ok a m' => exact ⟨a, m', rfl, h.returned hrun⟩
  | error halt m' =>
    cases halt with
    | error e => exact (h.failed hrun).elim
    | fault f => exact (h.faulted hrun).elim

/-- A computation that can end in one way only does so. -/
theorem Ends.run_eq {x : Exec α} {a : α} {m' : Machine}
    (h : Ends x m ⟨fun b m₁ => b = a ∧ m₁ = m', fun _ _ => False, False⟩) : x.run m = .ok a m' := by
  obtain ⟨_, _, hrun, rfl, rfl⟩ := h.goesThrough
  exact hrun

/-- What asks for less is met as well. -/
theorem Ends.mono {x : Exec α} {q q' : Ending α} (h : Ends x m q)
    (hreturned : ∀ a m', q.returned a m' → q'.returned a m')
    (hfailed : ∀ e m', q.failed e m' → q'.failed e m') (hfaulted : q.faulted → q'.faulted) :
    Ends x m q' := by
  constructor
  cases hrun : x.run m with
  | ok a m' => exact hreturned a m' (h.returned hrun)
  | error halt m' =>
    cases halt with
    | error e => exact hfailed e m' (h.failed hrun)
    | fault f => exact hfaulted (h.faulted hrun)

end Combinators

section Primitives

variable {α : Type} {m : Machine}

theorem ends_checked {result : Except Fault α} {q : Ending α}
    (hok : ∀ a, result = .ok a → q.returned a m) (hfault : ∀ f, result = .error f → q.faulted) :
    Ends (checked result) m q := by
  cases result with
  | ok a => exact ⟨hok a rfl⟩
  | error f => exact ⟨hfault f rfl⟩

theorem ends_orError {ε : Type} {error : ε → ExecutionError} {result : Except ε α} {q : Ending α}
    (hok : ∀ a, result = .ok a → q.returned a m)
    (herror : ∀ cause, result = .error cause → q.failed (error cause) m) :
    Ends (orError error result) m q := by
  cases result with
  | ok a => exact ⟨hok a rfl⟩
  | error cause => exact ⟨herror cause rfl⟩

theorem ends_register {x : Nat} {q : Ending UInt8}
    (hok : ∀ h : x < 16, q.returned m.registers[x] m) (hfault : 16 ≤ x → q.faulted) :
    Ends (register x) m q := by
  constructor
  by_cases h : x < 16
  · rw [run_register h]
    exact hok h
  · have hrun : (register x).run m = .error (.fault (.noSuchRegister x)) m := by
      simp only [register, EStateM.run_bind, EStateM.run_get,
        Vector.getElem?_eq_none (Nat.le_of_not_lt h)]
      rfl
    rw [hrun]
    exact hfault (Nat.le_of_not_lt h)

theorem ends_setRegister {x : Nat} {value : UInt8} {q : Ending Unit}
    (hok : ∀ h : x < 16, q.returned () { m with registers := m.registers.set x value h })
    (hfault : 16 ≤ x → q.faulted) :
    Ends (setRegister x value) m q := by
  by_cases h : x < 16
  · constructor
    rw [run_setRegister h]
    exact hok h
  · rw [setRegister]
    rw [dif_neg h]
    exact ⟨hfault (Nat.le_of_not_lt h)⟩

theorem ends_setFlag {value : UInt8} {q : Ending Unit}
    (h : q.returned () { m with registers := m.registers.withFlag value }) :
    Ends (setFlag value) m q := by
  constructor
  rw [run_setFlag]
  exact h

theorem ends_registersUpTo {x : Nat} {q : Ending (List UInt8)}
    (hok : x < 16 → q.returned (m.registers.toList.take (x + 1)) m)
    (hfault : 16 ≤ x → q.faulted) :
    Ends (registersUpTo x) m q := by
  rw [registersUpTo]
  split
  · next h => exact ⟨hok h⟩
  · next h => exact ⟨hfault (Nat.le_of_not_lt h)⟩

/-- The sum of an index and the length of a block is far from the largest word. -/
theorem ends_indexedBlock {len : Nat} {q : Ending Nat}
    (hok : m.memory.checkBlock m.index.toNat len = .ok () → q.returned m.index.toNat m)
    (herror : ∀ cause, m.memory.checkBlock m.index.toNat len = .error cause →
      q.failed (.memory cause) m)
    (hfault : 0x1000 < len → q.faulted) :
    Ends (indexedBlock len) m q := by
  rw [indexedBlock]
  refine ends_bind (ends_get (ends_bind (ends_checked (fun _ _ => ?_) (fun f hf => hfault ?_))))
  · exact ends_bind (ends_orError (fun _ hcheck => ends_pure (hok hcheck)) herror)
  · have hindex : m.index.toNat < 0x10000 := m.index.toNat_lt
    rw [checkedAdd] at hf
    split at hf
    · cases hf
    · omega

end Primitives

end Exec

end Chip8
