/-!
# Single bits

Flags are combined bit by bit, so each flag has to be one bit: a power of two.
-/

namespace LevelSchema

/-- Whether a number is a power of two. -/
def isSingleBit (n : Nat) : Bool :=
  n == Nat.pow 2 n.log2

end LevelSchema
