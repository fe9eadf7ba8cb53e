/-!
# Geometric history lengths

The history lengths of a ladder of tables grow geometrically between two ends.  They are rounded
to whole numbers and then forced to be strictly increasing, which bends the series where the
tables are many and the lengths short.
-/

namespace BranchPrediction

/-- The power of a floating-point number by repeated squaring, times `acc`. -/
def powerTimes (acc base : Float) (n : Nat) : Float :=
  let acc := if n % 2 = 1 then acc * base else acc
  if _h : n / 2 = 0 then acc else powerTimes acc (base * base) (n / 2)
termination_by n
decreasing_by omega

/-- The term of index `i` of the geometric series from `least`, rounded to the nearest whole
number.  What is no number counts as zero. -/
def geometricTerm (least : Nat) (ratio : Float) (i : Nat) : Nat :=
  (least.toUInt64.toFloat * powerTimes 1.0 ratio i + 0.5).toUInt64.toNat

/-- Raise each element to at least one more than the element before it. -/
def strictlyIncreasing : List Nat → List Nat
  | [] => []
  | first :: rest => first :: go first rest
where
  /-- The elements after `previous`. -/
  go (previous : Nat) : List Nat → List Nat
    | [] => []
    | next :: rest =>
      let next := if next ≤ previous then previous + 1 else next
      next :: go next rest

/-- The `count` history lengths that grow from `least` to `greatest`. -/
def geometricLengths (least greatest count : Nat) : List Nat :=
  if count = 1 then [least]
  else
    let ratio := Float.pow (greatest.toUInt64.toFloat / least.toUInt64.toFloat)
      (1.0 / (count - 1).toUInt64.toFloat)
    strictlyIncreasing ((List.range count).map (geometricTerm least ratio))

end BranchPrediction
