import BranchPrediction.Branch

/-!
# Saturating counters

An `n`-bit counter moves in an interval and stops at its ends.  A signed counter covers
`[-2^(n-1), 2^(n-1) - 1]` and an unsigned one `[0, 2^n - 1]`; both predict *taken* from the middle
of the interval on.  `Counter.Range` is the interval, computed once for all the counters of a
table, and `Counter` a value inside it: every operation keeps the range and stays inside it.
`value_set`, `value_increment` and `value_decrement` say where an operation leaves the value.
-/

namespace BranchPrediction

/-- The interval of a saturating counter, with the least value that predicts *taken*. -/
structure Counter.Range where
  bits : Nat
  min : Int
  mid : Int
  max : Int
  min_le_zero : min ≤ 0
  zero_le_max : 0 ≤ max
  deriving DecidableEq, Repr

namespace Counter.Range

/-- The widest counter in use. -/
def maxBits : Nat := 15

def signed (bits : Nat) : Range where
  bits := bits
  min := -((1 <<< (bits - 1) : Nat) : Int)
  mid := 0
  max := ((1 <<< (bits - 1) : Nat) : Int) - 1
  min_le_zero := by
    have := Nat.two_pow_pos (bits - 1)
    rw [Nat.one_shiftLeft]
    omega
  zero_le_max := by
    have := Nat.two_pow_pos (bits - 1)
    rw [Nat.one_shiftLeft]
    omega

def unsigned (bits : Nat) : Range where
  bits := bits
  min := 0
  mid := ((1 <<< (bits - 1) : Nat) : Int)
  max := ((1 <<< bits : Nat) : Int) - 1
  min_le_zero := by omega
  zero_le_max := by
    have := Nat.two_pow_pos bits
    rw [Nat.one_shiftLeft]
    omega

/-- Whether a counter of this width exists. -/
def supports (bits : Nat) : Bool :=
  0 < bits && bits ≤ maxBits

end Counter.Range

structure Counter where
  range : Counter.Range
  value : Int
  min_le : range.min ≤ value
  le_max : value ≤ range.max
  deriving DecidableEq, Repr

namespace Counter

def zero (range : Range) : Counter where
  range := range
  value := 0
  min_le := range.min_le_zero
  le_max := range.zero_le_max

/-- Move the counter to `value`, or to the nearer end of its range. -/
def set (c : Counter) (value : Int) : Counter :=
  if low : value < c.range.min then
    { c with
      value := c.range.min
      min_le := Int.le_refl _
      le_max := Int.le_trans c.range.min_le_zero c.range.zero_le_max }
  else if high : c.range.max < value then
    { c with
      value := c.range.max
      min_le := Int.le_trans c.range.min_le_zero c.range.zero_le_max
      le_max := Int.le_refl _ }
  else
    { c with value := value, min_le := by omega, le_max := by omega }

def reset (c : Counter) : Counter :=
  zero c.range

/-- One up, unless the counter is at its upper end. -/
def increment (c : Counter) : Counter :=
  if h : c.value < c.range.max then
    { c with
      value := c.value + 1
      min_le := by have := c.min_le; omega
      le_max := by omega }
  else c

/-- One down, unless the counter is at its lower end. -/
def decrement (c : Counter) : Counter :=
  if h : c.range.min < c.value then
    { c with
      value := c.value - 1
      min_le := by omega
      le_max := by have := c.le_max; omega }
  else c

def step (c : Counter) (up : Bool) : Counter :=
  if up then c.increment else c.decrement

def train (c : Counter) (direction : Direction) : Counter :=
  c.step direction.isTaken

/-- Half the value, rounded down. -/
def halve (c : Counter) : Counter where
  range := c.range
  value := c.value / 2
  min_le := by
    have := c.min_le
    have := c.range.min_le_zero
    omega
  le_max := by
    have := c.le_max
    have := c.range.zero_le_max
    omega

/-- The direction that the counter stands for: *taken* from the middle of the range on. -/
def predict (c : Counter) : Direction :=
  .ofBool (c.range.mid ≤ c.value)

/-- The counter sits next to the boundary between the two directions. -/
def isWeak (c : Counter) : Bool :=
  c.value = c.range.mid || c.value = c.range.mid - 1

/-- The counter is at an end of its range. -/
def isSaturated (c : Counter) : Bool :=
  c.value = c.range.min || c.value = c.range.max

@[simp]
theorem range_zero (range : Range) : (zero range).range = range :=
  rfl

@[simp]
theorem range_reset (c : Counter) : c.reset.range = c.range :=
  rfl

@[simp]
theorem range_set (c : Counter) (value : Int) : (c.set value).range = c.range := by
  unfold set
  split
  · rfl
  · split <;> rfl

@[simp]
theorem range_increment (c : Counter) : c.increment.range = c.range := by
  unfold increment
  split <;> rfl

@[simp]
theorem range_decrement (c : Counter) : c.decrement.range = c.range := by
  unfold decrement
  split <;> rfl

@[simp]
theorem range_step (c : Counter) (up : Bool) : (c.step up).range = c.range := by
  cases up <;> simp [step]

@[simp]
theorem range_halve (c : Counter) : c.halve.range = c.range :=
  rfl

/-- Setting a counter clamps the value to the range. -/
theorem value_set (c : Counter) (value : Int) :
    (c.set value).value = max c.range.min (min value c.range.max) := by
  have := c.range.min_le_zero
  have := c.range.zero_le_max
  unfold set
  split
  · simp only
    omega
  · split <;> simp only <;> omega

theorem value_increment (c : Counter) : c.increment.value = min (c.value + 1) c.range.max := by
  have := c.le_max
  unfold increment
  split
  · simp only
    omega
  · omega

theorem value_decrement (c : Counter) : c.decrement.value = max (c.value - 1) c.range.min := by
  have := c.min_le
  unfold decrement
  split
  · simp only
    omega
  · omega

theorem le_increment (c : Counter) : c.value ≤ c.increment.value := by
  have := c.le_max
  rw [value_increment]
  omega

theorem decrement_le (c : Counter) : c.decrement.value ≤ c.value := by
  have := c.min_le
  rw [value_decrement]
  omega

end Counter

/-- How far a counter is from changing its mind. -/
inductive Confidence where
  /-- The counter sits next to the boundary between the two directions. -/
  | low
  | medium
  | high
  deriving DecidableEq, Repr, Inhabited

namespace Confidence

/-- The confidence of a counter; a counter that is both saturated and weak counts as saturated. -/
def ofCounter (c : Counter) : Confidence :=
  if c.isSaturated then .high else if c.isWeak then .low else .medium

def rank : Confidence → Nat
  | low => 0
  | medium => 1
  | high => 2

end Confidence

end BranchPrediction
