/-!
# Words

Masks of a 64-bit word, the XOR fold of a word into fewer bits, and the bound on the entries of a
table that addresses of 64 bits put up.
-/

namespace BranchPrediction

/-- There is room for a table of this many entries.  A table takes fewer than `2 ^ 63` bytes, and no
entry more than 64. -/
def hasRoomFor (entries : Nat) : Bool :=
  entries < 1 <<< 57

theorem lt_of_hasRoomFor {entries : Nat} (h : hasRoomFor entries = true) : entries < UInt64.size :=
  Nat.lt_trans (of_decide_eq_true h) (by decide)

/-- The word whose `width` lowest bits are set, for a width below 64. -/
def lowMask (width : Nat) : UInt64 :=
  (1 <<< UInt64.ofNat width) - 1

private theorem shiftRight_lt_self {value : UInt64} {width : Nat}
    (hvalue : value ≠ 0) (hwidth : width ≠ 0) (hlt : width < 64) :
    (value >>> UInt64.ofNat width).toNat < value.toNat := by
  have hpos : value.toNat ≠ 0 := fun h => hvalue (UInt64.toNat_inj.1 h)
  have hmod : (UInt64.ofNat width).toNat % 64 = width := by
    rw [UInt64.toNat_ofNat', Nat.mod_eq_of_lt (a := width) (b := 2 ^ 64) (by omega)]
    exact Nat.mod_eq_of_lt hlt
  rw [UInt64.toNat_shiftRight, hmod, Nat.shiftRight_eq_div_pow]
  exact Nat.div_lt_self (by omega) (Nat.one_lt_two_pow hwidth)

/-- Cut a word into chunks of `width` bits, lowest first, and combine them by XOR.  A width of
zero, or of a whole word, folds nothing. -/
def foldBits (value : UInt64) (width : Nat) : UInt64 :=
  if _h : value = 0 ∨ width = 0 ∨ 64 ≤ width then 0
  else (value &&& lowMask width) ^^^ foldBits (value >>> UInt64.ofNat width) width
termination_by value.toNat
decreasing_by
  exact shiftRight_lt_self (fun hv => _h (.inl hv)) (fun hw => _h (.inr (.inl hw))) (by omega)

end BranchPrediction
