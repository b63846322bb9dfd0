import Chip8.Keypad.Binding
import Chip8.Session.Playback

/-!
# The command line

`chip8 PROGRAM` runs a program and prints its screens. When the program waits for a key, a line is
read from standard input, and the first character of it is the key that is struck; an end of the
input ends the program. The journal goes into a file.
-/

namespace Chip8.CommandLine

/-- What the command line asks for. -/
structure Arguments where
  /-- The file that holds the program. -/
  program : String
  settings : Settings := {}
  /-- The file that the journal is written to. -/
  logFile : String := "chip8.log"

/-- How the command is used. -/
def usage : String :=
  "usage: chip8 [-f RATE | --frequency RATE] [--fps RATE] [--log-file FILE] PROGRAM"

/-- Reads the arguments after the program's file has, or has not yet, been named. -/
def parse (settings : Settings) (logFile : String) (program : Option String) :
    List String → Option Arguments
  | [] => program.map fun program => { program, settings, logFile }
  | "-f" :: rate :: rest | "--frequency" :: rate :: rest => do
    parse { settings with frequency := ← rate.toNat? } logFile program rest
  | "--fps" :: rate :: rest => do
    parse { settings with fps := ← rate.toNat? } logFile program rest
  | "--log-file" :: file :: rest => parse settings file program rest
  | file :: rest =>
    if program.isSome || file.startsWith "-" then none else parse settings logFile (some file) rest

/-- A session, and the time that has passed since its timers last counted. -/
structure Play where
  session : Session
  elapsed : Nat := 0

/-- One call of the task, and the counts of the timers that have become due. -/
def Play.advance (p : Play) : Play :=
  let session := p.session.tick.1
  let elapsed := p.elapsed + session.interval
  { session := session.withTimers fun timers => (timers.fireLatest (elapsed / Timers.interval)).1
    elapsed := elapsed % Timers.interval }

/-- A key is struck while the machine waits for one. -/
def Play.strike (p : Play) (code : UInt8) : Play :=
  { p with session := p.session.withKeypad fun keypad => { keypad with visits := [[.press code]] } }

/-- The written form of a row of cells. -/
def row (cells : List Bool) : String :=
  String.ofList (cells.map fun lit => if lit then '#' else '.')

/-- The written form of a screen, a line for each of its rows. -/
def picture (s : Screen) : String := "\n".intercalate (s.lines.map row)

/-- The written form of a record. -/
def entry (r : Record) : String :=
  (match r.level with
    | .error => "ERROR "
    | .warn => "WARN "
    | .info => "INFO "
    | .debug => "DEBUG "
    | .trace => "TRACE ") ++ r.text

/-- Writes the records that a reader of the journal sees who wants everything down to `info`. -/
def log (journal : IO.FS.Handle) (records : List Record) : IO Unit :=
  (Record.visible .info records).forM fun r => journal.putStrLn (entry r)

/-- Runs the task until the session ends or its user quits. -/
partial def play (journal : IO.FS.Handle) (input : IO.FS.Stream) (p : Play) : IO Session := do
  if !p.session.running then return p.session
  if p.session.isAsleep then
    let line ← input.getLine
    match line.toList with
    | [] => return p.session
    | c :: _ =>
      match Binding.command { key := .character c } with
      | .key code => play journal input (p.strike code)
      | .quit => return p.session
      | .ignore => play journal input p
  else
    log journal p.session.tickRecords
    let next := p.advance
    if p.session.frames.size < next.session.frames.size then
      IO.println (picture next.session.machine.screen)
    IO.sleep (UInt32.ofNat (p.session.interval / 1000000))
    play journal input next

/-- A source of random bytes for one run. -/
def randomSource : IO RandomSource := do
  let bytes ← (List.replicate 4096 ()).mapM fun _ => IO.rand 0 255
  return RandomSource.cycle (bytes.map UInt8.ofNat).toArray

/-- Runs a program to its end. -/
def run (arguments : Arguments) : IO UInt32 := do
  let program := (← IO.FS.readBinFile arguments.program).toList
  let journal ← IO.FS.Handle.mk arguments.logFile .write
  let .ok created := Machine.create arguments.settings {} (← randomSource)
    | IO.eprintln "The screen is too large."
      return 1
  log journal (created.loadRecords program)
  match created.loadProgram program with
  | .error e =>
    IO.eprintln ("Unable to load the rom: " ++ e.message)
    return 1
  | .ok machine =>
    log journal (Session.startRecords machine)
    let ended ← play journal (← IO.getStdin) { session := Session.start machine }
    log journal ended.stopRecords
    match ended.stop.2 with
    | .ok _ => return 0
    | .error e =>
      IO.eprintln ("The machine stopped on an error: " ++ e.message)
      return 1

end Chip8.CommandLine

def main (args : List String) : IO UInt32 :=
  match Chip8.CommandLine.parse {} "chip8.log" none args with
  | some arguments => Chip8.CommandLine.run arguments
  | none => do
    IO.eprintln Chip8.CommandLine.usage
    return 2
