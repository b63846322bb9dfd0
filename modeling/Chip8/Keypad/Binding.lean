/-!
# Keys of the host

The sixteen keys of the keypad lie in four rows of four. They are bound to the left block of a
typewriter keyboard, row by row; escape, and `c` with the control key, quit.
-/

namespace Chip8.Binding

/-- The codes of the keypad as its keys lie. -/
def layout : List (List UInt8) :=
  [[0x1, 0x2, 0x3, 0xC],
   [0x4, 0x5, 0x6, 0xD],
   [0x7, 0x8, 0x9, 0xE],
   [0xA, 0x0, 0xB, 0xF]]

/-- The characters that are bound to these keys. -/
def hostRows : List (List Char) :=
  [['1', '2', '3', '4'],
   ['q', 'w', 'e', 'r'],
   ['a', 's', 'd', 'f'],
   ['z', 'x', 'c', 'v']]

/-- A key of the host's keyboard. -/
inductive HostKey where
  | character (c : Char)
  | escape
  /-- Any key that neither writes a character nor is escape. -/
  | other
  deriving DecidableEq, Repr

/-- A key of the host that was struck, perhaps with the control key held down. -/
structure Stroke where
  key : HostKey
  control : Bool := false
  deriving DecidableEq, Repr

/-- What a stroke asks for. -/
inductive Command where
  /-- A press of a key of the keypad. -/
  | key (code : UInt8)
  /-- The end of the program. -/
  | quit
  /-- Nothing. -/
  | ignore
  deriving DecidableEq, Repr

/-- The key that a character is bound to, in either case of an ASCII letter. -/
def code? (c : Char) : Option UInt8 :=
  (hostRows.zip layout).findSome? fun (characters, codes) =>
    (characters.zip codes).lookup c.toLower

/-- What a stroke asks for. Quitting takes a small `c`: with the control key held down, a capital
one is still a key of the keypad. -/
def command (s : Stroke) : Command :=
  match s.key with
  | .escape => .quit
  | .character c =>
    if c = 'c' ∧ s.control then .quit
    else match code? c with
      | some code => .key code
      | none => .ignore
  | .other => .ignore

end Chip8.Binding
