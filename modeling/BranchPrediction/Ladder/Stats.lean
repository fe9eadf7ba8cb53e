import BranchPrediction.Branch

/-!
# Statistics of a ladder

Counts of what a ladder did at commits, kept per source of the final prediction.
-/

namespace BranchPrediction

/-- What supplied a final prediction. -/
inductive ProviderSource where
  /-- The longest matching table. -/
  | longestMatch
  /-- The alternate, next longest matching table, or what stands in for it. -/
  | altMatch
  /-- No tagged table matched: the base table, or nothing. -/
  | fallback
  deriving DecidableEq, Repr

instance : Inhabited ProviderSource := ⟨.fallback⟩

structure SourceTally where
  longestMatch : Nat := 0
  altMatch : Nat := 0
  fallback : Nat := 0
  deriving DecidableEq, Repr, Inhabited

namespace SourceTally

/-- One more for a source. -/
def add (t : SourceTally) : ProviderSource → SourceTally
  | .longestMatch => { t with longestMatch := t.longestMatch + 1 }
  | .altMatch => { t with altMatch := t.altMatch + 1 }
  | .fallback => { t with fallback := t.fallback + 1 }

def total (t : SourceTally) : Nat :=
  t.longestMatch + t.altMatch + t.fallback

/-- The counts in the order longest match, alternate, fallback. -/
def toList (t : SourceTally) : List Nat :=
  [t.longestMatch, t.altMatch, t.fallback]

end SourceTally

/-- The statistics of a ladder. -/
structure LadderStats where
  allocations : Nat := 0
  failedAllocations : Nat := 0
  /-- The number of times that all usefulness was halved. -/
  agings : Nat := 0
  commits : Nat := 0
  /-- The number of targets overwritten after they lost all confidence. -/
  targetReplacements : Nat := 0
  correct : SourceTally := {}
  wrong : SourceTally := {}
  /-- Wrong predictions per table, for the commits at which it was the longest match. -/
  misses : Array Nat
  deriving DecidableEq, Repr

namespace LadderStats

/-- The statistics of a ladder of `tables` tables that has done nothing. -/
def zero (tables : Nat) : LadderStats where
  misses := Array.replicate tables 0

def record (s : LadderStats) (source : ProviderSource) (hit? : Option Nat) (isCorrect : Bool) :
    LadderStats :=
  if isCorrect then { s with correct := s.correct.add source }
  else
    { s with
      wrong := s.wrong.add source
      misses := match hit? with
        | some bank => s.misses.modify bank (· + 1)
        | none => s.misses }

end LadderStats

end BranchPrediction
