/-!
# The history register

Global history is a circular buffer of bits.  Bits are addressed by *age*: the newest has age 0.
A push moves the write position one cell back and overwrites the oldest bit; undoing the push
writes the overwritten bit back.  `HistoryRegister.bit` is the view through which everything else
reads the register, and `HistoryRegister.fold` the XOR fold that a folded history keeps
incrementally.

The lemmas state each operation through the view: `bit_push_zero`, `bit_push_succ`, `bit_pop`,
`bit_unpush` and `bit_clear`; `unpush_push` says that a push is undone completely.
-/

namespace BranchPrediction

/-- A circular register of history bits. -/
structure HistoryRegister where
  cells : Array Bool
  /-- The cell of the newest bit, which is the write position. -/
  start : Nat
  start_lt : start < cells.size
  deriving DecidableEq, Repr

namespace HistoryRegister

def size (r : HistoryRegister) : Nat :=
  r.cells.size

theorem size_pos (r : HistoryRegister) : 0 < r.size :=
  Nat.zero_lt_of_lt r.start_lt

/-- There is room for a register of this many bits.  Of a word that counts bits, three bits are
taken by the place in a byte. -/
def hasRoomFor (size : Nat) : Bool :=
  size < 1 <<< 61

def zeros (size : Nat) (h : 0 < size) : HistoryRegister :=
  ⟨Array.replicate size false, 0, by simpa using h⟩

/-- The register of `size` zero bits, if there is at least one cell. -/
def zeros? (size : Nat) : Option HistoryRegister :=
  if h : 0 < size then some (zeros size h) else none

/-- The cell that is `n` cells after the newest bit, around the circle. -/
@[inline]
def cellAfter (r : HistoryRegister) (n : Nat) : Nat :=
  (r.start + n) % r.size

theorem cellAfter_lt (r : HistoryRegister) (n : Nat) : r.cellAfter n < r.cells.size :=
  Nat.mod_lt _ r.size_pos

/-- The bit that was pushed `age` pushes before the newest one. -/
@[inline]
def bit (r : HistoryRegister) (age : Nat) : Bool :=
  have := r.cellAfter_lt age
  r.cells[r.cellAfter age]

/-- The bit that the next push overwrites. -/
def oldest (r : HistoryRegister) : Bool :=
  r.bit (r.size - 1)

/-- Push a bit over the oldest one. -/
def push (r : HistoryRegister) (b : Bool) : HistoryRegister :=
  match r with
  | ⟨cells, start, start_lt⟩ =>
    let cell := (start + (cells.size - 1)) % cells.size
    have cell_lt : cell < cells.size := Nat.mod_lt _ (Nat.zero_lt_of_lt start_lt)
    ⟨cells.set cell b, cell, by simpa using cell_lt⟩

/-- Step over the newest bit, which stays in its cell as the oldest one. -/
def pop (r : HistoryRegister) : HistoryRegister :=
  { r with start := r.cellAfter 1, start_lt := r.cellAfter_lt 1 }

/-- Step over the newest bit and write back the bit that its push overwrote. -/
def unpush (r : HistoryRegister) (overwritten : Bool) : HistoryRegister :=
  match r with
  | ⟨cells, start, start_lt⟩ =>
    let restored := cells.set start overwritten
    have restored_pos : 0 < restored.size := by simpa [restored] using Nat.zero_lt_of_lt start_lt
    ⟨restored, (start + 1) % restored.size, Nat.mod_lt _ restored_pos⟩

def clear (r : HistoryRegister) : HistoryRegister :=
  zeros r.size r.size_pos

/-- The newest `n` bits, newest first. -/
def read (r : HistoryRegister) (n : Nat) : List Bool :=
  (List.range n).map r.bit

/-- The whole register as text, oldest bit first. -/
def text (r : HistoryRegister) : String :=
  String.ofList ((r.read r.size).reverse.map fun b => if b then '1' else '0')

/-- Cut the newest `window` bits into chunks of `width` bits and combine them by XOR, so that the
bit of age `i` lands at position `i % width`. -/
def fold (r : HistoryRegister) (window width : Nat) : UInt64 :=
  if width = 0 then 0
  else
    (List.range window).foldl
      (fun acc age => acc ^^^ ((r.bit age).toUInt64 <<< UInt64.ofNat (age % width))) 0

/-- As `fold`, refusing chunks that no word holds. -/
def fold? (r : HistoryRegister) (window width : Nat) : Option UInt64 :=
  if 64 < width ∧ 64 < window then none else some (r.fold window width)

@[simp]
theorem size_push (r : HistoryRegister) (b : Bool) : (r.push b).size = r.size := by
  simp [push, size]

theorem start_push (r : HistoryRegister) (b : Bool) :
    (r.push b).start = (r.start + (r.size - 1)) % r.size :=
  rfl

@[simp]
theorem size_pop (r : HistoryRegister) : r.pop.size = r.size :=
  rfl

@[simp]
theorem size_unpush (r : HistoryRegister) (b : Bool) : (r.unpush b).size = r.size := by
  simp [unpush, size]

@[simp]
theorem size_clear (r : HistoryRegister) : r.clear.size = r.size := by
  simp [clear, zeros, size]

theorem bit_clear (r : HistoryRegister) (age : Nat) : r.clear.bit age = false := by
  simp [clear, zeros, bit]

theorem bit_pop (r : HistoryRegister) (age : Nat) : r.pop.bit age = r.bit (age + 1) := by
  have hcell : r.pop.cellAfter age = r.cellAfter (age + 1) := by
    change ((r.start + 1) % r.size + age) % r.size = (r.start + (age + 1)) % r.size
    rw [Nat.mod_add_mod]
    congr 1
    omega
  simp only [bit, hcell]
  rfl

/-- Going around the circle at most once. -/
theorem mod_of_lt_two_mul {n size : Nat} (h : n < 2 * size) :
    n % size = if n < size then n else n - size := by
  split
  · exact Nat.mod_eq_of_lt (by omega)
  · rw [Nat.mod_eq_sub_mod (by omega), Nat.mod_eq_of_lt (by omega)]

theorem bit_push_zero (r : HistoryRegister) (b : Bool) : (r.push b).bit 0 = b := by
  simp [push, bit, cellAfter, size]

theorem bit_push_succ (r : HistoryRegister) (b : Bool) {age : Nat} (h : age + 1 < r.size) :
    (r.push b).bit (age + 1) = r.bit age := by
  rcases r with ⟨cells, start, start_lt⟩
  change age + 1 < cells.size at h
  have hcell : ((start + (cells.size - 1)) % cells.size + (age + 1)) % cells.size =
      (start + age) % cells.size := by
    rw [Nat.mod_add_mod, show start + (cells.size - 1) + (age + 1) = start + age + cells.size by
      omega, Nat.add_mod_right]
  have hne : (start + (cells.size - 1)) % cells.size ≠ (start + age) % cells.size := by
    rw [mod_of_lt_two_mul (by omega), mod_of_lt_two_mul (by omega)]
    split <;> split <;> omega
  simp only [push, bit, cellAfter, size, Array.size_set, hcell]
  exact Array.getElem_set_ne _ _ hne

theorem bit_unpush (r : HistoryRegister) (overwritten : Bool) {age : Nat}
    (h : age + 1 < r.size) : (r.unpush overwritten).bit age = r.bit (age + 1) := by
  rcases r with ⟨cells, start, start_lt⟩
  change age + 1 < cells.size at h
  have hcell : ((start + 1) % cells.size + age) % cells.size =
      (start + (age + 1)) % cells.size := by
    rw [Nat.mod_add_mod, show start + 1 + age = start + (age + 1) by omega]
  have hne : start ≠ (start + (age + 1)) % cells.size := by
    rw [mod_of_lt_two_mul (by omega)]
    split <;> omega
  simp only [unpush, bit, cellAfter, size, Array.size_set, hcell]
  exact Array.getElem_set_ne _ _ hne

theorem unpush_push (r : HistoryRegister) (b : Bool) : (r.push b).unpush r.oldest = r := by
  rcases r with ⟨cells, start, start_lt⟩
  have hback : ((start + (cells.size - 1)) % cells.size + 1) % cells.size = start := by
    rw [Nat.mod_add_mod, show start + (cells.size - 1) + 1 = start + cells.size by omega,
      Nat.add_mod_right, Nat.mod_eq_of_lt start_lt]
  simp [push, unpush, oldest, bit, cellAfter, size, hback]

end HistoryRegister

end BranchPrediction
