/-!
# Held keys

A press counts as held for a short while only, so a key that stays down has to be pressed again and
again. `HeldKeys` remembers when each key was pressed last. A look at it forgets every press that is
too old, whichever key was asked for.
-/

namespace Chip8

/-- The time of the last press for each of the 256 key codes, where it is remembered. -/
structure HeldKeys where
  lastPress : Vector (Option Nat) 256
  deriving DecidableEq

namespace HeldKeys

/-- The nanoseconds for which a press counts as held. -/
def lifetime : Nat := 50000000

/-- No press is remembered. -/
def none : HeldKeys := ⟨Vector.replicate 256 Option.none⟩

/-- Remembers a press of a key. -/
def press (h : HeldKeys) (now : Nat) (key : UInt8) : HeldKeys :=
  ⟨h.lastPress.set key.toNat (some now) key.toNat_lt⟩

/-- Is a press made at `pressed` still held at `now`? -/
def live (now pressed : Nat) : Bool := now - pressed ≤ lifetime

/-- Forgets the presses that are no longer held. -/
def evict (h : HeldKeys) (now : Nat) : HeldKeys :=
  ⟨h.lastPress.map fun pressed => pressed.filter (live now)⟩

/-- Is a press of this key remembered? -/
def has (h : HeldKeys) (key : UInt8) : Bool :=
  (h.lastPress.get ⟨key.toNat, key.toNat_lt⟩).isSome

/-- The keys of which a press is remembered, in ascending order. -/
def codes (h : HeldKeys) : List UInt8 :=
  ((List.range 256).map UInt8.ofNat).filter h.has

end HeldKeys

end Chip8
