/-!
# Periodic tasks

A periodic task calls a function once per interval, on a thread of its own, until it is stopped or
the function asks to stop. Stopping sends a message through a channel on which the thread waits
between two calls.

The functions of this module are the single steps that the owner of the task and its threads take,
in whatever order they come:

* the owner takes `start`, `requestStop` and `joined?`;
* a thread takes `timeOut?` (it begins a call), `callEnds?` and `leave?`.

Each of a thread's steps is possible in some states only. `PeriodicTask.untilEnded` and
`PeriodicTask.untilCalls` let the threads run when the owner waits for them, and
`PeriodicTask.stop` is a whole stop.
-/

namespace Chip8

/-- What a thread is doing. -/
inductive ThreadPhase where
  /-- It waits for the interval to pass or for a message. -/
  | waiting
  /-- It is in a call of the function. -/
  | calling
  /-- It has ended. -/
  | ended
  deriving DecidableEq, Repr

/-- A thread with its end of the channel. The function that it calls asks to stop on the call with
the number `limit`. -/
structure TaskThread where
  limit : Nat
  calls : Nat := 0
  phase : ThreadPhase := .waiting
  /-- A message waits in the channel. -/
  message : Bool := false
  /-- The owner still has the other end of the channel. -/
  connected : Bool := true
  deriving DecidableEq, Repr

/-- A periodic task: its threads, and the two things by which its owner reaches the thread that was
started last. -/
structure PeriodicTask where
  /-- Every thread started so far, the first one first. -/
  threads : Array TaskThread := #[]
  /-- The thread at the other end of the owner's channel. -/
  channel : Option Nat := none
  /-- The thread whose end the owner can wait for. -/
  handle : Option Nat := none
  deriving DecidableEq, Repr

namespace TaskThread

/-- The thread waits, and nothing in the channel tells it to leave: it begins a call. The call counts as
begun from the moment at which the interval has passed, so a message that is sent between that moment and
the entry of the function comes during the call. -/
def timeOut? (t : TaskThread) : Option TaskThread :=
  if t.phase = .waiting ∧ t.message = false ∧ t.connected then
    some { t with phase := .calling, calls := t.calls + 1 }
  else none

/-- A call ends, and with it the thread if the function asks to stop. -/
def callEnds? (t : TaskThread) : Option TaskThread :=
  if t.phase = .calling then
    some { t with phase := if t.calls = t.limit then .ended else .waiting }
  else none

/-- The thread waits, and the channel tells it to leave. -/
def leave? (t : TaskThread) : Option TaskThread :=
  if t.phase = .waiting ∧ (t.message ∨ t.connected = false) then some { t with phase := .ended }
  else none

/-- The owner lets go of its end of the channel. -/
def disconnect (t : TaskThread) : TaskThread := { t with connected := false }

/-- The owner sends a message and lets go of its end of the channel. -/
def dismiss (t : TaskThread) : TaskThread := { t with message := true, connected := false }

/-- The step that the thread takes next, if it has not ended. -/
def step? (t : TaskThread) : Option TaskThread :=
  t.callEnds?.or (t.leave?.or t.timeOut?)

/-- Lets the thread take steps while a condition holds, at most so many. -/
def runWhile (condition : TaskThread → Bool) (t : TaskThread) : Nat → TaskThread
  | 0 => t
  | n + 1 =>
    if condition t then
      match t.step? with
      | some t' => t'.runWhile condition n
      | none => t
    else t

/-- The steps after which a thread has ended that is left to itself. -/
def stepsLeft (t : TaskThread) : Nat := 2 * (t.limit - t.calls) + 2

end TaskThread

namespace PeriodicTask

/-- Starts a thread, and lets go of the one before. -/
def start (p : PeriodicTask) (limit : Nat) : PeriodicTask :=
  let threads := match p.channel with
    | some number => p.threads.modify number TaskThread.disconnect
    | none => p.threads
  { threads := threads.push { limit }
    channel := some p.threads.size
    handle := some p.threads.size }

/-- Is one of the threads still there? -/
def isAlive (p : PeriodicTask) : Bool :=
  p.threads.any fun t => t.phase ≠ .ended

/-- The calls of all threads together. -/
def calls (p : PeriodicTask) : Nat :=
  p.threads.foldl (fun sum t => sum + t.calls) 0

/-- The owner tells the thread to leave. -/
def requestStop (p : PeriodicTask) : PeriodicTask :=
  match p.channel with
  | some number =>
    { p with threads := p.threads.modify number TaskThread.dismiss, channel := none }
  | none => p

/-- The owner goes on once the thread that it waits for has ended. -/
def joined? (p : PeriodicTask) : Option PeriodicTask :=
  match p.handle with
  | some number =>
    if p.threads[number]?.all (·.phase = .ended) then some { p with handle := none } else none
  | none => some p

/-- Lets every thread run until it has ended. -/
def untilEnded (p : PeriodicTask) : PeriodicTask :=
  { p with threads := p.threads.map fun t => t.runWhile (fun _ => true) t.stepsLeft }

/-- Lets the thread that was started last run until there were so many calls in all. -/
def untilCalls (p : PeriodicTask) (count : Nat) : PeriodicTask :=
  let last := p.threads.size - 1
  let before := p.calls - (p.threads[last]?.map (·.calls)).getD 0
  { p with
    threads := p.threads.modify last fun t =>
      t.runWhile (fun t => t.phase = .calling || before + t.calls < count) (2 * count + 2) }

/-- Tells the thread to leave and waits for its end. Threads that were let go of earlier end in the
meantime. -/
def stop (p : PeriodicTask) : PeriodicTask :=
  let ended := p.requestStop.untilEnded
  ended.joined?.getD ended

end PeriodicTask

end Chip8
