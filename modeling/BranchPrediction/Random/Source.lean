import BranchPrediction.Rounding

/-!
# Sources of random words

A source of random words is a value: drawing returns the word and the source that follows, so
keeping a copy of the source is enough to replay its draws.  This module derives the two draws
that the predictors and the workload make from whole words: an event of a given ratio, and a
uniform number below a bound.
-/

namespace BranchPrediction

/-- A source of uniform 64-bit words. -/
class RandomSource (G : Type) where
  next : G → UInt64 × G

namespace RandomSource

variable {G : Type} [RandomSource G]

/-- An event with ratio `num / den` happens for the words below this threshold: the ratio is
rounded to 53 significant bits first, then scaled to the range of words. -/
def ratioThreshold (num den : Nat) : Nat :=
  let (p, q) := nearestBinary64 num den
  p * UInt64.size / q

/-- Draw an event of ratio `num / den`.  A certain event takes no draw. -/
@[inline]
def ratio (num den : Nat) (g : G) : Bool × G :=
  if num = den then (true, g)
  else
    let (word, g) := next g
    (word.toNat < ratioThreshold num den, g)

/-- As `ratio`, refusing what is no ratio: a zero denominator, or more than one. -/
def ratio? (num den : Nat) (g : G) : Option (Bool × G) :=
  if den = 0 ∨ den < num then none else some (ratio num den g)

/-- The largest low half of a product that keeps `below` uniform: one less than the largest
multiple of `bound` by a power of two that fits a word. -/
def acceptedZone (bound : UInt64) : UInt64 :=
  (bound <<< (63 - bound.log2)) - 1

/-- Draw words until the low half of `word * bound` is accepted, and answer the high half. -/
def belowWithin (bound zone : UInt64) : Nat → G → UInt64 × G
  | 0, g => (0, g)
  | tries + 1, g =>
    let (word, g) := next g
    let product := word.toNat * bound.toNat
    if product % UInt64.size ≤ zone.toNat then (UInt64.ofNat (product / UInt64.size), g)
    else belowWithin bound zone tries g

/-- Draw a uniform number below a positive bound.  At most `2 ^ 64` words are drawn: a source
with one word of state that has accepted none of them by then never will. -/
def below (bound : UInt64) (g : G) : UInt64 × G :=
  belowWithin bound (acceptedZone bound) UInt64.size g

/-- As `below`, refusing the empty range. -/
def below? (bound : UInt64) (g : G) : Option (UInt64 × G) :=
  if bound = 0 then none else some (below bound g)

end RandomSource

end BranchPrediction
