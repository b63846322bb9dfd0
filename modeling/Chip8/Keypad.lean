import Chip8.Keypad.Held
import Chip8.Keypad.Rendezvous

/-!
# The keypad

The keypad joins the held keys with the rendezvous of a machine that waits for a key, and has a
clock by which the age of a press is measured.

* `Keypad.act` is what anyone with access to the keypad can do: a `KeyAction` that is answered by
  a `KeyReply`.
* `Keypad.awaitKey` is the wait of the machine. While the machine sleeps, others act on the keypad.
  What they are going to do is given in advance, as a queue of visits: each wait that begins takes
  the first of them. A visit that would leave the machine asleep ends by cancelling the wait, so
  that every wait ends.
-/

namespace Chip8

/-- Where a key press went. -/
inductive Destination where
  /-- To the machine that waits. -/
  | machine
  /-- To the held keys. -/
  | held
  deriving DecidableEq, Repr

/-- What can be done to a keypad. -/
inductive KeyAction where
  /-- Remembers presses of some keys. -/
  | add (keys : List UInt8)
  /-- Presses a key. -/
  | press (key : UInt8)
  /-- Asks whether a key is held. -/
  | contains (key : UInt8)
  /-- Asks for the held keys. -/
  | pressed
  /-- Asks whether the machine waits for a key. -/
  | isWaiting
  /-- Cancels the current and every later wait. -/
  | cancel
  /-- Allows waits again. -/
  | reset
  /-- Lets time pass, in nanoseconds. -/
  | advance (nanos : Nat)
  deriving DecidableEq, Repr

/-- The answer to an action. -/
inductive KeyReply where
  | done
  | went (destination : Destination)
  | flag (value : Bool)
  | codes (keys : List UInt8)
  deriving DecidableEq, Repr

/-- What others do to the keypad during one wait. A visit holds nothing else: that the timers count on
while the machine waits is left out. -/
abbrev Visit := List KeyAction

/-- What came of a visit. -/
structure VisitRecord where
  replies : List KeyReply
  /-- The visit left the machine asleep, and the wait was cancelled at its end. -/
  cancelledAtEnd : Bool
  deriving DecidableEq, Repr

/-- How a wait ends: with a key, or without one. -/
abbrev WaitResult := Except KeyWaitError UInt8

/-- The keypad and its surroundings. -/
structure Keypad where
  /-- The time, in nanoseconds. -/
  now : Nat := 0
  held : HeldKeys := HeldKeys.none
  rendezvous : Rendezvous := {}
  /-- The visits that the next waits will receive. -/
  visits : List Visit := []
  /-- What came of the visits so far, the oldest first. -/
  visited : Array VisitRecord := #[]

namespace Keypad

/-- The number of keys on the keypad. -/
def keyCount : Nat := 16

/-- Remembers that some keys are pressed now. -/
def add (k : Keypad) (keys : List UInt8) : Keypad :=
  { k with held := keys.foldl (fun held key => held.press k.now key) k.held }

/-- Forgets the presses that are no longer held now. -/
def evict (k : Keypad) : Keypad := { k with held := k.held.evict k.now }

/-- Is a key held? -/
def contains (k : Keypad) (key : UInt8) : Keypad × Bool :=
  (k.evict, k.evict.held.has key)

/-- The held keys in ascending order. -/
def pressed (k : Keypad) : Keypad × List UInt8 :=
  (k.evict, k.evict.held.codes)

/-- Presses a key: the machine that waits takes it, otherwise it is held. -/
def press (k : Keypad) (key : UInt8) : Keypad × Destination :=
  match k.rendezvous.offer? key with
  | some rendezvous => ({ k with rendezvous }, .machine)
  | none => (k.add [key], .held)

/-- Cancels the current and every later wait. -/
def cancel (k : Keypad) : Keypad := { k with rendezvous := k.rendezvous.cancel }

/-- Allows waits again. -/
def reset (k : Keypad) : Keypad := { k with rendezvous := k.rendezvous.reset }

/-- Lets time pass. -/
def advance (k : Keypad) (nanos : Nat) : Keypad := { k with now := k.now + nanos }

/-- Does one action. -/
def act (k : Keypad) : KeyAction → Keypad × KeyReply
  | .add keys => (k.add keys, .done)
  | .press key => let (k, destination) := k.press key; (k, .went destination)
  | .contains key => let (k, held) := k.contains key; (k, .flag held)
  | .pressed => let (k, keys) := k.pressed; (k, .codes keys)
  | .isWaiting => (k, .flag k.rendezvous.waiting)
  | .cancel => (k.cancel, .done)
  | .reset => (k.reset, .done)
  | .advance nanos => (k.advance nanos, .done)

/-- The machine wakes up and leaves the rendezvous, if it still sleeps and may stop waiting. -/
def wake (k : Keypad) : Option WaitResult → Keypad × Option WaitResult
  | some result => (k, some result)
  | none =>
    if k.rendezvous.released then
      let (rendezvous, result) := k.rendezvous.settle
      ({ k with rendezvous }, some result)
    else (k, none)

/-- The actions of a visit one by one. After each of them the machine wakes up if it may; `result`
is how its wait ended, once it has. -/
def attend (k : Keypad) (result : Option WaitResult) :
    Visit → Keypad × List KeyReply × Option WaitResult
  | [] => (k, [], result)
  | action :: rest =>
    let (k, reply) := k.act action
    let (k, result) := k.wake result
    let (k, replies, result) := attend k result rest
    (k, reply :: replies, result)

/-- Records what came of a visit. -/
def recordVisit (k : Keypad) (record : VisitRecord) : Keypad :=
  { k with visited := k.visited.push record }

/-- The wait that has begun: the first visit takes place, and the wait is cancelled if the visit has
not ended it. -/
def sleep (k : Keypad) : Keypad × WaitResult :=
  match { k with visits := k.visits.tail }.attend none (k.visits.headD []) with
  | (k, replies, some result) => (k.recordVisit ⟨replies, false⟩, result)
  | (k, replies, none) =>
    let (rendezvous, result) := k.rendezvous.cancel.settle
    ({ k with rendezvous }.recordVisit ⟨replies, true⟩, result)

/-- Waits for a key. A wait that was cancelled in advance ends at once. -/
def awaitKey (k : Keypad) : Keypad × WaitResult :=
  match k.rendezvous.begin? with
  | some rendezvous => { k with rendezvous }.sleep
  | none => (k, .error .cancelled)

end Keypad

end Chip8
