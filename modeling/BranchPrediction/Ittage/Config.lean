import BranchPrediction.Ladder.Config

/-!
# Configurations of ITTAGE
-/

namespace BranchPrediction

namespace Ittage

/-- The standard target ladder: shorter counters and smaller tables than for directions. -/
def standardLadder : Ladder.Config :=
  { Ladder.Config.widening Ladder.Config.standardLengths 9 9 with
    confidenceBits := 2
    usefulBits := 1 }

structure Config where
  ladder : Ladder.Config := standardLadder
  /-- The history bits that a conditional branch inserts, 0 or 1. -/
  conditionalBits : Nat := 1
  indirectJumpBits : Nat := 2
  indirectCallBits : Nat := 2
  directCallBits : Nat := 1
  /-- The seed of the draws that a branch makes.  Without one the draws may start from any seed;
  here zero stands for it. -/
  seed? : Option UInt64 := none
  deriving DecidableEq, Repr, Inhabited

namespace Config

/-- Reject a contribution that no word holds. -/
def checkBits (kind : TransferKind) (bits : Nat) : Except ConfigError Unit :=
  if 64 < bits then throw (.tooManyBits kind bits) else pure ()

/-- Check the ladder, then the number of bits that each kind of branch inserts. -/
def validate (c : Config) : Except ConfigError Unit := do
  c.ladder.validate
  if 1 < c.conditionalBits then throw .conditionalBits
  checkBits .indirectJump c.indirectJumpBits
  checkBits .indirectCall c.indirectCallBits
  checkBits .directCall c.directCallBits

def seedOr (c : Config) (seed : UInt64) : Config :=
  { c with seed? := some (c.seed?.getD seed) }

end Config

end Ittage

end BranchPrediction
