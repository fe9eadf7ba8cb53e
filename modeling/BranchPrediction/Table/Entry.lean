import BranchPrediction.Counter

/-!
# Tagged entries

An entry of a tagged table holds a tag, a confidence counter, a usefulness counter and a payload.
What the payload is decides what the table predicts.  A direction table carries none
(`SignOnly`): the direction is the sign of the confidence counter.  A target table carries an
address (`Target`) and counts its confidence from zero.
-/

namespace BranchPrediction

/-- What the entries of a tagged table carry besides tag and counters. -/
class Payload (P : Type) where
  /-- The payload of an entry that was never allocated. -/
  blank : P
  /-- The range of a confidence counter of the given width. -/
  confidenceRange : Nat → Counter.Range
  /-- The payload can serve as a prediction; without it, an equal tag is still a miss. -/
  isInstalled : P → Bool
  /-- The confidence counter is where an allocation leaves it. -/
  isPseudoNew : Counter → Bool

/-- The payload of a direction table: nothing but the sign of the confidence counter. -/
structure SignOnly where
  deriving DecidableEq, Repr, Inhabited

instance : Payload SignOnly where
  blank := ⟨⟩
  confidenceRange := Counter.Range.signed
  isInstalled _ := true
  isPseudoNew := Counter.isWeak

/-- The payload of a target table: an address, once there is one. -/
structure Target where
  address? : Option UInt64
  deriving DecidableEq, Repr, Inhabited

instance : Payload Target where
  blank := ⟨none⟩
  confidenceRange := Counter.Range.unsigned
  isInstalled target := target.address?.isSome
  isPseudoNew ctr := ctr.value = 0

/-- An entry of a tagged table. -/
structure TaggedEntry (P : Type) where
  /-- Absent until the entry is first allocated. -/
  tag? : Option Nat
  confidence : Counter
  useful : Counter
  payload : P
  deriving DecidableEq, Repr

/-- The index and the tag that a branch has in one tagged table. -/
structure Slot where
  index : Nat
  tag : Nat
  deriving DecidableEq, Repr, Inhabited

namespace TaggedEntry

variable {P : Type}

/-- An entry that was never allocated. -/
def blank [Payload P] (confidence useful : Counter.Range) : TaggedEntry P :=
  ⟨none, .zero confidence, .zero useful, Payload.blank⟩

/-- The entry answers for a tag. -/
def isMatch [Payload P] (e : TaggedEntry P) (tag : Nat) : Bool :=
  e.tag? = some tag && Payload.isInstalled e.payload

/-- Overwrite the entry with a freshly allocated one. -/
def allocate (e : TaggedEntry P) (tag : Nat) (confidence : Int) (payload : P) : TaggedEntry P :=
  ⟨some tag, e.confidence.set confidence, e.useful.reset, payload⟩

/-- Return the entry to the state before its first allocation. -/
def invalidate [Payload P] (e : TaggedEntry P) : TaggedEntry P :=
  ⟨none, e.confidence.reset, e.useful.reset, Payload.blank⟩

/-- The entry has not been trained since it was allocated, as far as its counter shows. -/
def isPseudoNew [Payload P] (e : TaggedEntry P) : Bool :=
  Payload.isPseudoNew P e.confidence

def stepUseful (e : TaggedEntry P) (up : Bool) : TaggedEntry P :=
  { e with useful := e.useful.step up }

def stepConfidence (e : TaggedEntry P) (up : Bool) : TaggedEntry P :=
  { e with confidence := e.confidence.step up }

def age (e : TaggedEntry P) : TaggedEntry P :=
  { e with useful := e.useful.halve }

end TaggedEntry

end BranchPrediction
