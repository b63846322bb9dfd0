/-!
# The rendezvous of a key and a waiting machine

A machine that waits for a key and the one who presses it meet in a `Rendezvous`. Each function of
this module is what one party does in one go:

* the machine begins with `begin?`, which fails if waits are forbidden, sleeps until the rendezvous
  is `released`, and leaves with `settle`;
* a key press hands its key over with `offer?`, which succeeds if a machine waits and has no key
  yet;
* `cancel` releases the wait without a key and forbids further ones, until `reset`.
-/

namespace Chip8

/-- Why a wait ended without a key. -/
inductive KeyWaitError where
  | cancelled
  deriving DecidableEq, Repr

/-- The wording of why a wait ended without a key. -/
def KeyWaitError.message : KeyWaitError → String
  | .cancelled => "The key wait was cancelled."

/-- The state that a waiting machine and the keys share. -/
structure Rendezvous where
  /-- A machine waits. -/
  waiting : Bool := false
  /-- The key that was handed over. -/
  key : Option UInt8 := none
  /-- Waits are forbidden. -/
  cancelled : Bool := false
  deriving DecidableEq, Repr

namespace Rendezvous

/-- A machine begins to wait, unless waits are forbidden. -/
def begin? (r : Rendezvous) : Option Rendezvous :=
  if r.cancelled then none else some { r with waiting := true, key := none }

/-- A key press hands its key to the waiting machine, if there is one that has none yet. -/
def offer? (r : Rendezvous) (key : UInt8) : Option Rendezvous :=
  if r.waiting ∧ r.key = none then some { r with key := some key } else none

/-- May the machine stop waiting? -/
def released (r : Rendezvous) : Bool := r.key.isSome || r.cancelled

/-- The machine stops waiting and takes the key, if one was handed over. -/
def settle (r : Rendezvous) : Rendezvous × Except KeyWaitError UInt8 :=
  ({ r with waiting := false, key := none },
    match r.key with
    | some key => .ok key
    | none => .error .cancelled)

/-- Releases the current wait and forbids further ones. -/
def cancel (r : Rendezvous) : Rendezvous := { r with cancelled := true }

/-- Allows waits again. -/
def reset (r : Rendezvous) : Rendezvous := { r with cancelled := false }

end Rendezvous

end Chip8
