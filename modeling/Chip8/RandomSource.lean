/-!
# Random bytes

A source of random bytes hands them out one by one. It is an endless stream with a position, so that
one can say how many bytes have been taken.
-/

namespace Chip8

/-- An endless stream of bytes and the number of those that were taken. -/
structure RandomSource where
  stream : Nat → UInt8
  position : Nat := 0

namespace RandomSource

/-- The next byte, and the source without it. -/
def take (r : RandomSource) : UInt8 × RandomSource :=
  (r.stream r.position, { r with position := r.position + 1 })

/-- The source that hands out the given bytes again and again, or zeros where none are given. -/
def cycle (bytes : Array UInt8) : RandomSource :=
  { stream := fun i => bytes[i % bytes.size]?.getD 0 }

end RandomSource

end Chip8
