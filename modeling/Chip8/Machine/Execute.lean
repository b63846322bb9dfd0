import Chip8.Alu
import Chip8.Machine.Exec
import Chip8.Screen.Sprite

/-!
# Carrying out an instruction

`Machine.execute` carries out one instruction. The program counter has moved past the instruction
before, so that a call pushes the address that execution returns to, and every `Flow` starts from
the following instruction.

Whatever can fail in an instruction comes before whatever the instruction changes.
-/

namespace Chip8

/-- What an instruction has to tell to those who watch the machine. -/
inductive Notice where
  /-- Nothing. -/
  | quiet
  /-- The screen has changed and is to be painted again. -/
  | redraw
  /-- A word was skipped because it is no instruction. -/
  | unknown (word : UInt16)
  deriving DecidableEq, Repr

namespace Exec

/-- Draws the sprite of `n` rows that the index register points at. Its corner is at the point that
registers `x` and `y` name, taken modulo the size of the screen. -/
def draw (x y n : Nat) : Exec Unit := do
  let start ← indexedBlock n
  let m ← get
  let left ← checked (checkedMod (← register x).toNat m.screen.cols)
  let top ← checked (checkedMod (← register y).toNat m.screen.rows)
  let (screen, erased) ← checked (m.screen.drawSprite left top (m.memory.block start n))
  modify fun m => { m with screen }
  setFlag (flagOf erased)

/-- Combines two registers. The flag is written last, and so remains where `x` is its register. -/
def alu (op : AluOp) (x y : Nat) : Exec Unit := do
  let a ← register x
  let b ← register y
  let (result, flag) := op.apply a b
  setRegister x result
  match flag with
  | some flag => setFlag flag
  | none => return

/-- Is the key that register `x` names held? -/
def isHeld (x : Nat) : Exec Bool := do
  let key ← register x
  modifyGet fun m =>
    let (keypad, held) := m.keypad.contains key
    (held, { m with keypad })

/-- Waits for a key. -/
def awaitKey : Exec UInt8 := do
  let result ← modifyGet fun m =>
    let (keypad, result) := m.keypad.awaitKey
    (result, { m with keypad })
  orError (fun _ => .interrupted) result

/-- The next random byte. -/
def randomByte : Exec UInt8 :=
  modifyGet fun m =>
    let (byte, random) := m.random.take
    (byte, { m with random })

/-- The three decimal digits of a byte. -/
def digits (value : UInt8) : List UInt8 :=
  [value / 100, value / 10 % 10, value % 10]

/-- Adds register `x` to the index register, which stays at its highest value rather than beginning
again. The flag is set where the index register then lies beyond what twelve bits can address, and
is left alone otherwise. -/
def addToIndex (x : Nat) : Exec Unit := do
  let value ← register x
  let sum := min ((← get).index.toNat + value.toNat) 0xFFFF
  modify fun m => { m with index := UInt16.ofNat sum }
  if Memory.highestOperand < sum then setFlag 1

/-- Acts on register `x`. -/
def registerOp (op : RegisterOp) (x : Nat) : Exec Unit := do
  match op with
  | .getDelay => setRegister x (← get).timers.delay
  | .awaitKey => setRegister x (← awaitKey)
  | .setDelay =>
    let value ← register x
    modify fun m => { m with timers := m.timers.setDelay value }
  | .setSound =>
    let value ← register x
    modify fun m => { m with timers := m.timers.setSound value }
  | .addToIndex => addToIndex x
  | .pointToGlyph =>
    let index ← checked (checkedWord (Font.glyphAddress ((← register x).toNat % 16)))
    modify fun m => { m with index }
  | .storeDigits =>
    let value ← register x
    let start ← indexedBlock 3
    writeBlock start (digits value)
  | .storeRegisters =>
    let len ← checked (checkedAdd x 1)
    let start ← indexedBlock len
    writeBlock start (← registersUpTo x)
  | .loadRegisters =>
    let len ← checked (checkedAdd x 1)
    let start ← indexedBlock len
    let _ ← registersUpTo x
    modify fun m => { m with registers := m.registers.overwrite (m.memory.block start len) }

/-- Pops the address to return to. -/
def popAddress : Exec UInt16 := do
  let (address, stack) ← orError .stack (← get).stack.pop
  modify fun m => { m with stack }
  return address

/-- Pushes the address to return to. -/
def pushAddress (address : UInt16) : Exec Unit := do
  let stack ← orError .stack ((← get).stack.push address)
  modify fun m => { m with stack }

/-- The effect of an instruction on everything but the program counter, and where execution goes
on. -/
def perform : Instruction → Exec (Flow × Notice)
  | .clear => do
    modify fun m => { m with screen := m.screen.clear }
    return (.next, .redraw)
  | .ret => do return (.jump (← popAddress), .quiet)
  | .jump nnn => return (.jump nnn, .quiet)
  | .call nnn => do
    pushAddress (← get).pc
    return (.jump nnn, .quiet)
  | .skipIfEqual x nn => do return (.skipIf ((← register x) == nn), .quiet)
  | .skipIfNotEqual x nn => do return (.skipIf ((← register x) != nn), .quiet)
  | .skipIfSame x y => do return (.skipIf ((← register x) == (← register y)), .quiet)
  | .set x nn => do
    setRegister x nn
    return (.next, .quiet)
  | .add x nn => do
    setRegister x ((← register x) + nn)
    return (.next, .quiet)
  | .alu op x y => do
    alu op x y
    return (.next, .quiet)
  | .skipIfDifferent x y => do return (.skipIf ((← register x) != (← register y)), .quiet)
  | .setIndex nnn => do
    modify fun m => { m with index := nnn }
    return (.next, .quiet)
  | .jumpPlus nnn => do return (.jump (nnn + (← register 0).toUInt16), .quiet)
  | .random x nn => do
    setRegister x (nn &&& (← randomByte))
    return (.next, .quiet)
  | .draw x y n => do
    draw x y n
    return (.next, .redraw)
  | .skipIfHeld x => do return (.skipIf (← isHeld x), .quiet)
  | .skipIfNotHeld x => do return (.skipIf (!(← isHeld x)), .quiet)
  | .register op x => do
    registerOp op x
    return (.next, .quiet)

/-- Moves the program counter. -/
def follow (flow : Flow) : Exec Unit :=
  modify fun m => { m with pc := flow.apply m.pc }

end Exec

/-- Carries out one instruction. -/
def Machine.execute (instruction : Instruction) : Exec Notice := do
  let (flow, notice) ← Exec.perform instruction
  Exec.follow flow
  return notice

end Chip8
