import Chip8.Session

/-!
# Playing a session

`Session.playTo` lets the task of a session run on its own until a landmark is reached.
`Session.playAndStop` stops the session there, and once more, and reports what can be seen of it.
-/

namespace Chip8.Session

/-- How far a session is played. -/
inductive Landmark where
  /-- Until it ends by itself. -/
  | ended
  /-- Until it sleeps, waiting for a key, with the given published program counter. -/
  | asleep (pc : UInt16)
  /-- Until so many screens were handed over. -/
  | frames (count : Nat)
  deriving DecidableEq, Repr

/-- Has a session come as far as a landmark? -/
def reached (s : Session) : Landmark → Bool
  | .ended => !s.running
  | .asleep pc => s.isAsleep && s.publishedPc == pc
  | .frames count => count ≤ s.frames.size

/-- Calls the task until the landmark is reached, at most so many times. -/
def playTo (landmark : Landmark) (s : Session) : Nat → Session
  | 0 => s
  | n + 1 => if s.reached landmark then s else playTo landmark s.tick.1 n

/-- The calls after which a session that has not come to its landmark is given up. -/
def patience : Nat := 1000000

/-- If the task sleeps, its wait is cancelled and it completes its step. -/
def interrupt (s : Session) : Session :=
  if s.isAsleep then s.tick.1 else s

/-- What is seen of a session that is played to a landmark and stopped twice there. -/
structure Playback where
  errorBefore : Option ExecutionError
  firstStop : Except ExecutionError Unit
  secondStop : Except ExecutionError Unit
  /-- The session after it was stopped. -/
  final : Session

/-- Plays a session to a landmark, and stops it there twice. -/
def playAndStop (s : Session) (landmark : Landmark) : Playback :=
  let played := s.playTo landmark patience
  let (once, firstStop) := played.interrupt.stop
  let (twice, secondStop) := once.stop
  { errorBefore := played.error, firstStop, secondStop, final := twice }

end Chip8.Session
