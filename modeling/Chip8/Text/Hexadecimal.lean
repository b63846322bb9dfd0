/-!
# Hexadecimal text

Numbers are shown in upper-case base sixteen after the mark `0x`. Two forms are used:

* `Hexadecimal.padded` fills up with zeros to four digits, so that every 16-bit word has the same
  width and a column of words stays aligned;
* `Hexadecimal.plain` writes no leading zeros.

Both write the digits of `Hexadecimal.digits`, most significant first.
-/

namespace Chip8.Hexadecimal

/-- The character of one base-sixteen digit. -/
def digit (d : Nat) : Char :=
  if d < 10 then Char.ofNat (48 + d) else Char.ofNat (55 + d)

/-- The base-sixteen digits of a number, most significant first and without leading zeros. -/
def digits (n : Nat) : List Char :=
  if n < 16 then [digit n] else digits (n / 16) ++ [digit (n % 16)]

/-- The width that `padded` fills up to: the digits of a 16-bit word. -/
def wordDigits : Nat := 4

/-- A number with at least four digits, such as `0x00E0`. -/
def padded (n : Nat) : String :=
  "0x" ++ String.ofList ((digits n).leftpad wordDigits '0')

/-- A number without leading zeros, such as `0xE0`. -/
def plain (n : Nat) : String :=
  "0x" ++ String.ofList (digits n)

end Chip8.Hexadecimal
