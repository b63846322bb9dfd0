/-!
# The timers

The delay timer and the sound timer count down to zero, sixty times a second. What makes them count
is a ticker, which calls back once per interval for as long as it is alive. `Timers` keeps every
ticker that was ever started, so that one can say which of them are alive.

* `Timers.tick` is one step of both timers.
* `Timers.fire` is one call back of a ticker.
* `Timers.start` starts a ticker where none is running, and `Timers.stop` ends the running one.
-/

namespace Chip8

/-- Something that calls back once per interval as long as it is alive. -/
structure Ticker where
  /-- The nanoseconds between two calls. -/
  interval : Nat
  alive : Bool := true
  deriving DecidableEq, Repr

/-- The delay timer and the sound timer. -/
structure Timers where
  delay : UInt8 := 0
  sound : UInt8 := 0
  /-- Every ticker started so far, the first one first. -/
  tickers : Array Ticker := #[]
  /-- The number of the ticker that the timers hold. -/
  held : Option Nat := none
  deriving DecidableEq, Repr

namespace Timers

/-- How often the timers count in a second. -/
def frequency : Nat := 60

/-- The nanoseconds between two counts, a whole number of microseconds. -/
def interval : Nat := 1000000 / frequency * 1000

/-- One less, but never below zero. -/
def lower (value : UInt8) : UInt8 :=
  if value = 0 then 0 else value - 1

/-- One step of both timers. -/
def tick (t : Timers) : Timers :=
  { t with delay := lower t.delay, sound := lower t.sound }

/-- Several steps of both timers. -/
def tickTimes (t : Timers) : Nat → Timers
  | 0 => t
  | n + 1 => t.tick.tickTimes n

/-- Sets the delay timer. -/
def setDelay (t : Timers) (value : UInt8) : Timers := { t with delay := value }

/-- Sets the sound timer. -/
def setSound (t : Timers) (value : UInt8) : Timers := { t with sound := value }

/-- Is the ticker with this number alive? -/
def alive (t : Timers) (number : Nat) : Bool :=
  t.tickers[number]?.any Ticker.alive

/-- Is there a ticker that makes the timers count? -/
def isRunning (t : Timers) : Bool := t.held.any t.alive

/-- Starts a ticker, where none is running. -/
def start (t : Timers) : Timers :=
  if t.isRunning then t
  else { t with tickers := t.tickers.push { interval }, held := some t.tickers.size }

/-- The ticker with this number ends. -/
def kill (t : Timers) (number : Nat) : Timers :=
  { t with tickers := t.tickers.modify number fun ticker => { ticker with alive := false } }

/-- Ends the ticker that the timers hold, and lets go of it. -/
def stop (t : Timers) : Timers :=
  match t.held with
  | some number => { t.kill number with held := none }
  | none => t

/-- The ticker with this number calls back, if it is alive: the timers count. -/
def fire (t : Timers) (number : Nat) : Option Timers :=
  if t.alive number then some t.tick else none

/-- The number of the ticker that was started last. -/
def latest (t : Timers) : Nat := t.tickers.size - 1

/-- The ticker that was started last calls back several times. The flag says whether the last call
took place. -/
def fireLatest (t : Timers) : Nat → Timers × Bool
  | 0 => (t, false)
  | n + 1 =>
    match t.fire t.latest with
    | some t' => if n = 0 then (t', true) else t'.fireLatest n
    | none => (t, false)

/-- The ticker that was started last ends, without having been stopped. -/
def killLatest (t : Timers) : Timers := t.kill t.latest

/-- Timers that count from the beginning. -/
def running : Timers := ({} : Timers).start

end Timers

end Chip8
