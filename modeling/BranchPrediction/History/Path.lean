import BranchPrediction.Word

/-!
# Path history

One address bit of each branch that inserts history, newest lowest, in a shift register of fewer
than 64 bits.
-/

namespace BranchPrediction

structure PathHistory where
  bits : Nat
  value : UInt64
  deriving DecidableEq, Repr, Inhabited

namespace PathHistory

def empty (bits : Nat) : PathHistory :=
  ⟨bits, 0⟩

/-- Whether a path history of this width fits a word. -/
def supports (bits : Nat) : Bool :=
  bits < 64

/-- Shift in bit 2 of the address of a branch. -/
def extend (p : PathHistory) (pc : UInt64) : PathHistory :=
  { p with value := ((p.value <<< 1) ^^^ ((pc >>> 2) &&& 1)) &&& lowMask p.bits }

def clear (p : PathHistory) : PathHistory :=
  { p with value := 0 }

/-- The newest `n` bits of the path, at most all of them. -/
def newest (p : PathHistory) (n : Nat) : UInt64 :=
  p.value &&& lowMask (min n p.bits)

end PathHistory

end BranchPrediction
