/-!
# Rounding of quotients

Quotients of natural numbers rounded to the nearest natural number, to the nearest binary
floating-point number with 53 significant bits, and to a fixed number of decimal places.  A tie
goes to the even neighbour everywhere.
-/

namespace BranchPrediction

/-- The natural number nearest to `num / den`; a half goes to the even neighbour. -/
def roundDiv (num den : Nat) : Nat :=
  let quotient := num / den
  let rest := num % den
  if 2 * rest < den then quotient
  else if den < 2 * rest then quotient + 1
  else quotient + quotient % 2

/-- The number with 53 significant bits nearest to `num / den`, as a numerator and a
denominator that is a power of two.  The exponent is not bounded. -/
def nearestBinary64 (num den : Nat) : Nat × Nat :=
  if num = 0 then (0, 1)
  else
    let scaled (k : Int) : Nat × Nat := (num <<< k.toNat, den <<< (-k).toNat)
    let guess : Int := 53 + den.log2 - num.log2
    let (top, bottom) := scaled guess
    let k := if top / bottom < 1 <<< 53 then guess else guess - 1
    let (top, bottom) := scaled k
    (roundDiv top bottom <<< (-k).toNat, 1 <<< k.toNat)

/-- The decimal text of `num / den` with exactly `places` digits after the point. -/
def fixedPoint (places num den : Nat) : String :=
  let scale := Nat.pow 10 places
  let units := roundDiv (num * scale) den
  let fraction := toString (units % scale)
  let padding := String.ofList (List.replicate (places - fraction.length) '0')
  toString (units / scale) ++ "." ++ padding ++ fraction

end BranchPrediction
