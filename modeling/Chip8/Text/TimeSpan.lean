/-!
# Time spans as text

A time span is a number of nanoseconds. It is shown in the largest of the units second,
millisecond, microsecond and nanosecond that it fills at least once, as an exact decimal fraction
without trailing zeros: `2ms`, `16.666ms`, `1s`, `0ns`.
-/

namespace Chip8.TimeSpan

/-- A unit of time: its name, its length in nanoseconds, and the decimal places that tell a
nanosecond in it. -/
structure TimeUnit where
  name : String
  length : Nat
  places : Nat

/-- The units from the longest to the shortest, without the nanosecond. -/
def units : List TimeUnit :=
  [⟨"s", 1000000000, 9⟩, ⟨"ms", 1000000, 6⟩, ⟨"µs", 1000, 3⟩]

/-- The unit a span is shown in, nanoseconds if it fills no longer one. -/
def unitOf (nanos : Nat) : TimeUnit :=
  (units.find? fun u => u.length ≤ nanos).getD ⟨"ns", 1, 0⟩

/-- The decimal digits of `part` after the point, filled up in front to so many places and without
the zeros at the end. -/
def fraction (places part : Nat) : List Char :=
  let digits := (Nat.toDigits 10 part).leftpad places '0'
  (digits.reverse.dropWhile (· == '0')).reverse

/-- A span of nanoseconds in its unit. -/
def render (nanos : Nat) : String :=
  let u := unitOf nanos
  let whole := toString (nanos / u.length)
  match fraction u.places (nanos % u.length) with
  | [] => whole ++ u.name
  | digits => whole ++ "." ++ String.ofList digits ++ u.name

end Chip8.TimeSpan
