import Chip8.Machine.Dump
import Chip8.Machine.Report
import Chip8.Text.TimeSpan

/-!
# Sessions

A session runs a machine: once per interval its task makes one step, publishes where the machine is,
and hands over the screen when it is to be painted again. The session ends by itself on the first
step that halts, and from outside by `stop` or `close`. It gives its machine up when it ends, and
then the timers stop as well, while the keypad can still be used.

* `Session.tick` is one call of the task.
* `Session.stop` ends the session and reports the error on which it had ended by itself. Its owner
  keeps the session, and can stop it again.
* `Session.close` ends the session without a report. Its owner lets go of it, and has no means to
  stop or close it afterwards.
-/

namespace Chip8

/-- A machine that is run, and what others can see of it. -/
structure Session where
  machine : Machine
  /-- The task is alive. -/
  running : Bool := true
  /-- The program counter after the last step. -/
  publishedPc : UInt16
  /-- The error on which the session ended by itself, until it is reported. -/
  error : Option ExecutionError := none
  /-- The screens that were handed over to be painted, the first one first. -/
  frames : Array Screen := #[]
  /-- The owner has let go of the session. -/
  released : Bool := false

namespace Session

/-- Begins to run a machine. -/
def start (m : Machine) : Session := { machine := m, publishedPc := m.pc }

/-- The nanoseconds from one call of the task to the next. -/
def interval (s : Session) : Nat := s.machine.settings.instructionInterval

/-- What the journal says about the beginning of a session. -/
def startRecords (m : Machine) : List Record :=
  [⟨.info, "Starting the execution with an interval of "
    ++ TimeSpan.render m.settings.instructionInterval⟩]

/-- Does something to the keypad. -/
def withKeypad (s : Session) (f : Keypad → Keypad) : Session :=
  { s with machine := { s.machine with keypad := f s.machine.keypad } }

/-- Does something to the timers. -/
def withTimers (s : Session) (f : Timers → Timers) : Session :=
  { s with machine := { s.machine with timers := f s.machine.timers } }

/-- The task ends, and the machine with it: its timers stop. -/
def finish (s : Session) : Session :=
  if s.running then { s.withTimers Timers.stop with running := false } else s

/-- Publishes where a machine is after a step. -/
def publish (s : Session) (m : Machine) : Session :=
  { s with machine := m, publishedPc := m.pc }

/-- Hands over the screen, if a step asked for that. -/
def handOver (s : Session) (notice : Notice) : Session :=
  match notice with
  | .redraw => { s with frames := s.frames.push s.machine.screen }
  | _ => s

/-- One call of the task: a step of the machine. The answer says whether the task goes on; there is
none if the task is no longer alive. -/
def tick (s : Session) : Session × Option Bool :=
  if s.running then
    match Machine.step.run s.machine with
    | .ok notice m => ((s.publish m).handOver notice, some true)
    | .error (.error e) m => ({ s.publish m with error := some e }.finish, some false)
    | .error (.fault _) m => ({ s with machine := m }.finish, some false)
  else (s, none)

/-- Several calls of the task, with their answers. -/
def tickTimes (s : Session) : Nat → Session × List (Option Bool)
  | 0 => (s, [])
  | n + 1 =>
    let (s, answer) := s.tick
    let (s, answers) := s.tickTimes n
    (s, answer :: answers)

/-- What the journal says about a call of the task. -/
def tickRecords (s : Session) : List Record :=
  if s.running then
    s.machine.stepRecords ++ match Machine.step.run s.machine with
      | .ok _ _ => []
      | .error (.error .interrupted) _ => [⟨.info, "The execution was interrupted."⟩]
      | .error (.error e) m =>
        [⟨.error, "The execution stopped: " ++ e.message⟩, ⟨.error, m.dump⟩]
      | .error (.fault _) _ => []
  else []

/-- What the journal says about several calls of the task. -/
def tickTimesRecords (s : Session) : Nat → List Record
  | 0 => []
  | n + 1 => s.tickRecords ++ s.tick.1.tickTimesRecords n

/-- Does the next call of the task put the machine to sleep, with nobody left to wake it? -/
def isAsleep (s : Session) : Bool :=
  s.running && s.machine.aboutToWait && s.machine.keypad.visits.isEmpty

/-- Ends the session from outside; a wait for a key is cancelled first. -/
def terminate (s : Session) : Session := (s.withKeypad Keypad.cancel).finish

/-- The owner lets go of the session, which ends it. That happens once: to close a session again
does nothing, and in particular does not cancel a wait. -/
def close (s : Session) : Session :=
  if s.released then s else { s.terminate with released := true }

/-- Nobody holds a closed session. -/
theorem released_close (s : Session) : s.close.released = true := by
  unfold close
  split
  · next h => exact h
  · rfl

/-- The error that is reported when a session is stopped. An interruption is none: it is how a wait
for a key ends when a session is stopped. -/
def report : Option ExecutionError → Except ExecutionError Unit
  | none | some .interrupted => .ok ()
  | some e => .error e

/-- Ends the session and reports the error on which it had ended by itself, once. A session that
its owner has let go of is left alone, and has nothing to report. -/
def stop (s : Session) : Session × Except ExecutionError Unit :=
  if s.released then (s, .ok ())
  else ({ s.terminate with error := none }, report s.error)

/-- What the journal says about stopping a session. -/
def stopRecords (s : Session) : List Record :=
  if s.released then [] else [⟨.info, "Stopped the execution."⟩]

end Session

end Chip8
