import BranchPrediction.Word
import Mathlib.Algebra.Group.Nat.Defs

/-!
# The bits of a word

A word is read bit by bit: `wordBit` is the view, `eq_of_wordBit_eq` says that it loses nothing,
and one lemma states each operation of the predictors through it.  Shifts are by a literal number
of places below 64, which is how all masks, folds and hashes use them.
-/

namespace BranchPrediction

/-- The bit of a word at a position; there are none from position 64 on. -/
def wordBit (x : UInt64) (i : Nat) : Bool :=
  x.toBitVec.getLsbD i

theorem wordBit_eq_testBit (x : UInt64) (i : Nat) : wordBit x i = x.toNat.testBit i :=
  rfl

theorem eq_of_wordBit_eq {x y : UInt64} (h : ∀ i, i < 64 → wordBit x i = wordBit y i) :
    x = y := by
  apply UInt64.toBitVec_inj.1
  apply BitVec.eq_of_getLsbD_eq
  intro i hi
  exact h i hi

theorem wordBit_of_ge (x : UInt64) {i : Nat} (h : 64 ≤ i) : wordBit x i = false :=
  BitVec.getLsbD_of_ge _ i h

@[simp]
theorem wordBit_zero (i : Nat) : wordBit 0 i = false := by
  simp [wordBit]

@[simp]
theorem wordBit_xor (x y : UInt64) (i : Nat) :
    wordBit (x ^^^ y) i = (wordBit x i ^^ wordBit y i) := by
  simp [wordBit]

@[simp]
theorem wordBit_or (x y : UInt64) (i : Nat) :
    wordBit (x ||| y) i = (wordBit x i || wordBit y i) := by
  simp [wordBit]

@[simp]
theorem wordBit_and (x y : UInt64) (i : Nat) :
    wordBit (x &&& y) i = (wordBit x i && wordBit y i) := by
  simp [wordBit]

/-- A shift amount below 64 is taken as it is. -/
theorem toNat_shiftAmount {n : Nat} (h : n < 64) :
    ((UInt64.ofNat n).toBitVec % 64).toNat = n := by
  have hsmall : n < 2 ^ 64 := by omega
  have hwidth : (64 : BitVec 64).toNat = 64 := rfl
  rw [BitVec.toNat_umod, hwidth, UInt64.toBitVec_ofNat', BitVec.toNat_ofNat,
    Nat.mod_eq_of_lt hsmall, Nat.mod_eq_of_lt h]

theorem wordBit_shiftLeft (x : UInt64) {n : Nat} (h : n < 64) (i : Nat) :
    wordBit (x <<< UInt64.ofNat n) i =
      (decide (i < 64) && !decide (i < n) && wordBit x (i - n)) := by
  rw [wordBit, UInt64.toBitVec_shiftLeft, BitVec.shiftLeft_eq', toNat_shiftAmount h,
    BitVec.getLsbD_shiftLeft]
  rfl

theorem wordBit_shiftRight (x : UInt64) {n : Nat} (h : n < 64) (i : Nat) :
    wordBit (x >>> UInt64.ofNat n) i = wordBit x (n + i) := by
  rw [wordBit, UInt64.toBitVec_shiftRight, BitVec.ushiftRight_eq', toNat_shiftAmount h,
    BitVec.getLsbD_ushiftRight]
  rfl

theorem wordBit_toUInt64 (b : Bool) (i : Nat) :
    wordBit b.toUInt64 i = (b && decide (i = 0)) := by
  rw [wordBit, Bool.toBitVec_toUInt64, BitVec.getLsbD_setWidth, BitVec.getLsbD_ofBool]
  by_cases hi : i = 0
  · simp [hi]
  · simp [hi]

theorem toNat_lowMask {width : Nat} (h : width < 64) :
    (lowMask width).toNat = 2 ^ width - 1 := by
  have hshift : ((1 : UInt64) <<< UInt64.ofNat width).toNat = 2 ^ width := by
    have hone : (1 : UInt64).toBitVec.toNat = 1 := rfl
    rw [← UInt64.toNat_toBitVec, UInt64.toBitVec_shiftLeft, BitVec.shiftLeft_eq',
      toNat_shiftAmount h, BitVec.toNat_shiftLeft, Nat.shiftLeft_eq, hone, Nat.one_mul]
    exact Nat.mod_eq_of_lt (Nat.pow_lt_pow_right (by omega) h)
  have hone : (1 : UInt64) ≤ 1 <<< UInt64.ofNat width := by
    rw [UInt64.le_iff_toNat_le, hshift]
    exact Nat.one_le_two_pow
  rw [lowMask, UInt64.toNat_sub_of_le _ _ hone, hshift]
  rfl

theorem wordBit_lowMask {width : Nat} (h : width < 64) (i : Nat) :
    wordBit (lowMask width) i = decide (i < width) := by
  rw [wordBit_eq_testBit, toNat_lowMask h, Nat.testBit_two_pow_sub_one]

/-- A word without bits from a position on is below that power of two. -/
theorem toNat_lt_of_wordBit {x : UInt64} {width : Nat}
    (h : ∀ i, width ≤ i → wordBit x i = false) : x.toNat < 2 ^ width := by
  apply Nat.lt_pow_two_of_testBit
  intro i hi
  rw [← wordBit_eq_testBit, h i hi]

end BranchPrediction
