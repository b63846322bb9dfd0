import Chip8.Journal
import Chip8.Text.Hexadecimal

/-!
# The call stack

The return addresses of the subroutines that are being executed. There is room for sixteen of them;
a call beyond that and a return without a call are errors.
-/

namespace Chip8

/-- What can be wrong with a use of the call stack. -/
inductive CallStackError where
  /-- There is no room for another address. -/
  | full
  /-- There is no address to return to. -/
  | empty
  deriving DecidableEq, Repr

/-- The wording of what is wrong with a use of the call stack. -/
def CallStackError.message : CallStackError → String
  | .full => "Stack is full!"
  | .empty => "Stack is empty!"

/-- Return addresses, the one pushed last in front. -/
structure CallStack where
  addresses : List UInt16 := []
  deriving DecidableEq, Repr

namespace CallStack

/-- The number of addresses there is room for. -/
def capacity : Nat := 16

/-- How many subroutines are being executed. -/
def depth (s : CallStack) : Nat := s.addresses.length

/-- Is no subroutine being executed? -/
def isEmpty (s : CallStack) : Bool := s.addresses.isEmpty

/-- The address that a return would continue at. -/
def peek? (s : CallStack) : Option UInt16 := s.addresses.head?

/-- The addresses in the order in which they were pushed. -/
def entries (s : CallStack) : List UInt16 := s.addresses.reverse

/-- Puts an address on top. -/
def push (s : CallStack) (address : UInt16) : Except CallStackError CallStack :=
  if s.depth < capacity then .ok ⟨address :: s.addresses⟩ else .error .full

/-- Takes the address on top away. -/
def pop (s : CallStack) : Except CallStackError (UInt16 × CallStack) :=
  match s.addresses with
  | [] => .error .empty
  | address :: rest => .ok (address, ⟨rest⟩)

/-- What was pushed last is popped first. -/
theorem pop_of_push {s s' : CallStack} {address : UInt16} (h : s.push address = .ok s') :
    s'.pop = .ok (address, s) := by
  unfold push at h
  split at h
  · cases h
    rfl
  · cases h

theorem addresses_of_push {s s' : CallStack} {address : UInt16} (h : s.push address = .ok s') :
    s'.addresses = address :: s.addresses := by
  rw [push] at h
  split at h
  · cases h
    rfl
  · cases h

/-- A pushed address comes last in the order of pushing. -/
theorem entries_of_push {s s' : CallStack} {address : UInt16} (h : s.push address = .ok s') :
    s'.entries = s.entries ++ [address] := by
  rw [entries, addresses_of_push h]
  exact List.reverse_cons

theorem addresses_of_pop {s s' : CallStack} {address : UInt16} (h : s.pop = .ok (address, s')) :
    s.addresses = address :: s'.addresses := by
  obtain ⟨addresses⟩ := s
  cases addresses with
  | nil => cases h
  | cons top rest =>
    cases h
    rfl

theorem push_eq_error_iff {s : CallStack} {address : UInt16} {cause : CallStackError} :
    s.push address = .error cause ↔ capacity ≤ s.depth ∧ cause = .full := by
  rw [push]
  split
  · next hroom => simp [Nat.not_le_of_lt hroom]
  · next hfull => simp [Nat.le_of_not_lt hfull, eq_comm]

theorem pop_eq_error_iff {s : CallStack} {cause : CallStackError} :
    s.pop = .error cause ↔ s.depth = 0 ∧ cause = .empty := by
  obtain ⟨addresses⟩ := s
  cases addresses with
  | nil => simp [pop, depth, eq_comm]
  | cons address rest => simp [pop, depth]

/-- What the journal says about pushing an address. -/
def pushRecords (s : CallStack) (address : UInt16) : List Record :=
  match s.push address with
  | .ok s' => [⟨.debug, "Pushed " ++ Hexadecimal.padded address.toNat
      ++ ", depth " ++ toString s'.depth⟩]
  | .error _ => []

/-- What the journal says about popping an address. -/
def popRecords (s : CallStack) : List Record :=
  match s.pop with
  | .ok (address, _) => [⟨.debug, "Popped " ++ Hexadecimal.padded address.toNat⟩]
  | .error _ => []

end CallStack

end Chip8
