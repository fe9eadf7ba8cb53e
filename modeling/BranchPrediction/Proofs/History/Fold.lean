import BranchPrediction.History.Fold
import BranchPrediction.Proofs.Word

/-!
# Folded history against the fold of the register

A folded history is never recomputed: a push rotates it and patches two bits, and undoing the push
patches the same two bits and rotates back.  `FoldedHistory.Tracks` says that it nevertheless holds
`HistoryRegister.fold` of its window, and `pushed_tracks`, `popping_tracks` and `clear_tracks` keep
it so.  The argument is made bit by bit.  `foldedBit` is the bit of a fold at one position, and
`foldedBit_shift` is the only fact about folds that is needed: shifting the history by one moves
each folded bit to the next position, around the width, up to the bit that enters and the bit that
leaves the window.
-/

namespace BranchPrediction

/-! ## The bits of a fold -/

/-- The bit of a fold at a position: the parity of the newest `window` bits that land there. -/
def foldedBit (bit : Nat → Bool) (width position : Nat) : Nat → Bool
  | 0 => false
  | window + 1 =>
    foldedBit bit width position window ^^ (bit window && (window % width == position))

/-- Two ages land at the same position exactly if the ages after them do. -/
theorem succ_mod_eq_iff {width age position : Nat} (h : position < width) :
    (age + 1) % width = (position + 1) % width ↔ age % width = position := by
  have hmod : age % width < width := Nat.mod_lt _ (by omega)
  rw [← Nat.mod_add_mod, HistoryRegister.mod_of_lt_two_mul (n := age % width + 1) (by omega),
    HistoryRegister.mod_of_lt_two_mul (n := position + 1) (by omega)]
  split <;> split <;> omega

/-- The fold of one more bit, taken after a shift: the bit that entered lands at position 0. -/
theorem foldedBit_shift_succ {bit shifted : Nat → Bool} {width position window : Nat}
    (hposition : position < width) (hshift : ∀ i, i < window → shifted (i + 1) = bit i) :
    foldedBit shifted width ((position + 1) % width) (window + 1) =
      (foldedBit bit width position window
        ^^ (shifted 0 && (0 == (position + 1) % width))) := by
  induction window with
  | zero => simp [foldedBit]
  | succ window ih =>
      have hrest : ∀ i, i < window → shifted (i + 1) = bit i := by
        intro i hi
        exact hshift i (by omega)
      have hland : ((window + 1) % width == (position + 1) % width) =
          (window % width == position) := by
        rw [Bool.eq_iff_iff, beq_iff_eq, beq_iff_eq, succ_mod_eq_iff hposition]
      rw [foldedBit, ih hrest, hshift window (by omega), hland, foldedBit, Bool.xor_assoc,
        Bool.xor_assoc, Bool.xor_comm (shifted 0 && _)]

/-- A shift moves each folded bit to the next position, around the width; the bit that enters the
window lands at position 0 and the one that leaves it is taken out where the window ends. -/
theorem foldedBit_shift {bit shifted : Nat → Bool} {width position window : Nat}
    (hposition : position < width) (hshift : ∀ i, i < window → shifted (i + 1) = bit i) :
    foldedBit shifted width ((position + 1) % width) window =
      (foldedBit bit width position window
        ^^ (shifted 0 && (0 == (position + 1) % width))
        ^^ (shifted window && (window % width == (position + 1) % width))) := by
  have hsucc := foldedBit_shift_succ hposition hshift
  rw [foldedBit] at hsucc
  rw [← hsucc, Bool.xor_assoc, Bool.xor_self, Bool.xor_false]

theorem foldedBit_of_all_false {bit : Nat → Bool} (h : ∀ i, bit i = false)
    (width position window : Nat) : foldedBit bit width position window = false := by
  induction window with
  | zero => rfl
  | succ window ih => simp [foldedBit, ih, h]

/-- A truth value shifted to a position. -/
theorem wordBit_toUInt64_shiftLeft (b : Bool) {position : Nat} (h : position < 64) (i : Nat) :
    wordBit (b.toUInt64 <<< UInt64.ofNat position) i = (b && (position == i)) := by
  rw [wordBit_shiftLeft _ h, wordBit_toUInt64]
  by_cases hi : position = i
  · subst hi
    simp [h]
  · have hafter : i < position ∨ i - position ≠ 0 := by omega
    rcases hafter with hafter | hafter
    · simp [hi, hafter]
    · simp [hi, hafter]

namespace HistoryRegister

/-- The register's own fold, bit by bit. -/
theorem wordBit_fold (r : HistoryRegister) {width : Nat} (hpos : 0 < width) (hlt : width < 64)
    (window position : Nat) :
    wordBit (r.fold window width) position = foldedBit r.bit width position window := by
  rw [fold, if_neg (by omega)]
  induction window with
  | zero => simp [foldedBit]
  | succ window ih =>
      have hland : window % width < 64 := by
        have := Nat.mod_lt window hpos
        omega
      rw [List.range_succ, List.foldl_append, List.foldl_cons, List.foldl_nil, wordBit_xor, ih,
        wordBit_toUInt64_shiftLeft _ hland, foldedBit]

theorem fold_width_zero (r : HistoryRegister) (window : Nat) : r.fold window 0 = 0 := by
  simp [fold]

theorem fold_window_zero (r : HistoryRegister) (width : Nat) : r.fold 0 width = 0 := by
  simp [fold]

theorem wordBit_fold_of_ge (r : HistoryRegister) {width : Nat} (hlt : width < 64)
    (window : Nat) {i : Nat} (hi : width ≤ i) : wordBit (r.fold window width) i = false := by
  rcases Nat.eq_zero_or_pos width with rfl | hpos
  · simp [fold_width_zero]
  · rw [wordBit_fold r hpos hlt]
    induction window with
    | zero => rfl
    | succ window ih =>
        have hmod := Nat.mod_lt window hpos
        have hne : window % width ≠ i := by omega
        simp [foldedBit, ih, hne]

end HistoryRegister

namespace FoldedHistory

/-! ## Rotation -/

/-- A word with no bits beyond a width. -/
def Fits (width : Nat) (x : UInt64) : Prop :=
  ∀ i, width ≤ i → wordBit x i = false

theorem Fits.xor {width : Nat} {x y : UInt64} (hx : Fits width x) (hy : Fits width y) :
    Fits width (x ^^^ y) := by
  intro i hi
  rw [wordBit_xor, hx i hi, hy i hi, Bool.xor_false]

theorem fits_rotateLeft {width : Nat} (h : width < 64) (x : UInt64) :
    Fits width (rotateLeft width x) := by
  intro i hi
  have hout : ¬i < width := by omega
  rw [rotateLeft, wordBit_and, wordBit_lowMask h]
  simp [hout]

theorem fits_rotateRight {width : Nat} (h : width < 64) (x : UInt64) :
    Fits width (rotateRight width x) := by
  intro i hi
  have hout : ¬i < width := by omega
  rw [rotateRight, wordBit_and, wordBit_lowMask h]
  simp [hout]

theorem eq_of_fits {width : Nat} {x y : UInt64} (hx : Fits width x) (hy : Fits width y)
    (h : ∀ position, position < width → wordBit x position = wordBit y position) : x = y := by
  apply eq_of_wordBit_eq
  intro i _
  by_cases hi : i < width
  · exact h i hi
  · rw [hx i (by omega), hy i (by omega)]

/-- Two words of a width agree if they agree at the position after each one, around the width. -/
theorem eq_of_wordBit_succ_mod {width : Nat} {x y : UInt64}
    (hx : Fits width x) (hy : Fits width y)
    (h : ∀ position, position < width →
      wordBit x ((position + 1) % width) = wordBit y ((position + 1) % width)) :
    x = y := by
  apply eq_of_fits hx hy
  intro i hi
  have hback : ((i + (width - 1)) % width + 1) % width = i := by
    rw [Nat.mod_add_mod, show i + (width - 1) + 1 = i + width by omega, Nat.add_mod_right,
      Nat.mod_eq_of_lt hi]
  have := h ((i + (width - 1)) % width) (Nat.mod_lt _ (by omega))
  rwa [hback] at this

/-- Rotating to the left moves each bit to the next position, around the width. -/
theorem wordBit_rotateLeft {width position : Nat} {x : UInt64} (hwidth : width < 64)
    (hx : Fits width x) (h : position < width) :
    wordBit (rotateLeft width x) ((position + 1) % width) = wordBit x position := by
  have hone : x <<< (1 : UInt64) = x <<< UInt64.ofNat 1 := rfl
  rw [rotateLeft, wordBit_and, wordBit_or, wordBit_lowMask hwidth, hone,
    wordBit_shiftLeft _ (by omega), wordBit_shiftRight _ (by omega),
    HistoryRegister.mod_of_lt_two_mul (n := position + 1) (by omega)]
  by_cases hlast : position + 1 < width
  · have hbeyond : wordBit x (width - 1 + (position + 1)) = false := hx _ (by omega)
    have hword : position + 1 < 64 := by omega
    simp [hlast, hbeyond, hword]
  · have hposition : width - 1 = position := by omega
    have hwrap : position + 1 - width = 0 := by omega
    have hpos : 0 < width := by omega
    simp [hlast, hwrap, hposition, hpos]

/-- Rotating to the right takes each bit from the next position, around the width. -/
theorem wordBit_rotateRight {width position : Nat} {x : UInt64} (hwidth : width < 64)
    (hx : Fits width x) (h : position < width) :
    wordBit (rotateRight width x) position = wordBit x ((position + 1) % width) := by
  have hone : x >>> (1 : UInt64) = x >>> UInt64.ofNat 1 := rfl
  have hbit : ∀ i, wordBit (x &&& 1) i = (wordBit x i && decide (i = 0)) := by
    intro i
    have htrue : (1 : UInt64) = true.toUInt64 := rfl
    rw [wordBit_and, htrue, wordBit_toUInt64, Bool.true_and]
  rw [rotateRight, wordBit_and, wordBit_or, wordBit_lowMask hwidth, hone,
    wordBit_shiftRight _ (by omega), wordBit_shiftLeft _ (by omega), hbit,
    HistoryRegister.mod_of_lt_two_mul (n := position + 1) (by omega)]
  by_cases hlast : position + 1 < width
  · have hbefore : position < width - 1 := by omega
    simp [hlast, hbefore, h, Nat.add_comm]
  · have hposition : position - (width - 1) = 0 := by omega
    have hwrap : position + 1 - width = 0 := by omega
    have hbeyond : wordBit x (1 + position) = false := hx _ (by omega)
    have hreach : ¬position < width - 1 := by omega
    have hword : position < 64 := by omega
    simp [hlast, hwrap, hposition, hbeyond, hreach, hword, h]

theorem rotateRight_rotateLeft {width : Nat} {x : UInt64} (hwidth : width < 64)
    (hx : Fits width x) : rotateRight width (rotateLeft width x) = x := by
  apply eq_of_fits (fits_rotateRight hwidth _) hx
  intro i hi
  rw [wordBit_rotateRight hwidth (fits_rotateLeft hwidth x) hi, wordBit_rotateLeft hwidth hx hi]

/-! ## Keeping in step with the register -/

theorem not_isTrivial_iff {f : FoldedHistory} :
    f.isTrivial = false ↔ 0 < f.width ∧ 0 < f.window := by
  simp only [isTrivial, Bool.or_eq_false_iff, decide_eq_false_iff_not]
  omega

theorem fold_of_isTrivial {f : FoldedHistory} (h : f.isTrivial = true) (r : HistoryRegister) :
    r.fold f.window f.width = 0 := by
  simp only [isTrivial, Bool.or_eq_true, decide_eq_true_eq] at h
  rcases h with h | h
  · rw [h, r.fold_width_zero]
  · rw [h, r.fold_window_zero]

/-- The bit that enters lands at position 0 and the one that leaves where the window ends. -/
theorem wordBit_boundary {f : FoldedHistory} (hpos : 0 < f.width) (hwidth : f.width < 64)
    (r : HistoryRegister) (i : Nat) :
    wordBit (f.boundary r) i =
      ((r.bit 0 && (0 == i)) ^^ (r.bit f.window && (f.window % f.width == i))) := by
  have hmod := Nat.mod_lt f.window hpos
  have hzero : (r.bit 0).toUInt64 = (r.bit 0).toUInt64 <<< UInt64.ofNat 0 := by simp
  rw [boundary, wordBit_xor, hzero, wordBit_toUInt64_shiftLeft _ (by omega),
    wordBit_toUInt64_shiftLeft _ (by omega)]

theorem fits_boundary {f : FoldedHistory} (hpos : 0 < f.width) (hwidth : f.width < 64)
    (r : HistoryRegister) : Fits f.width (f.boundary r) := by
  intro i hi
  have hmod := Nat.mod_lt f.window hpos
  have hzero : (0 == i) = false := by simpa using by omega
  have hleaves : (f.window % f.width == i) = false := by simpa using by omega
  rw [wordBit_boundary hpos hwidth, hzero, hleaves, Bool.and_false, Bool.and_false,
    Bool.xor_false]

theorem fits_fold (r : HistoryRegister) (window : Nat) {width : Nat} (h : width < 64) :
    Fits width (r.fold window width) := by
  intro i hi
  exact r.wordBit_fold_of_ge h window hi

theorem wordBit_fold_shifted {f : FoldedHistory} (hpos : 0 < f.width) (hwidth : f.width < 64)
    {r shifted : HistoryRegister}
    (hshift : ∀ age, age < f.window → shifted.bit (age + 1) = r.bit age)
    {position : Nat} (h : position < f.width) :
    wordBit (shifted.fold f.window f.width) ((position + 1) % f.width) =
      (wordBit (r.fold f.window f.width) position
        ^^ wordBit (f.boundary shifted) ((position + 1) % f.width)) := by
  rw [shifted.wordBit_fold hpos hwidth, r.wordBit_fold hpos hwidth,
    wordBit_boundary hpos hwidth, foldedBit_shift h hshift, Bool.xor_assoc]

/-- The step that follows a push. -/
theorem rotateLeft_fold {f : FoldedHistory} (hpos : 0 < f.width) (hwidth : f.width < 64)
    {r shifted : HistoryRegister}
    (hshift : ∀ age, age < f.window → shifted.bit (age + 1) = r.bit age) :
    rotateLeft f.width (r.fold f.window f.width) ^^^ f.boundary shifted =
      shifted.fold f.window f.width := by
  apply eq_of_wordBit_succ_mod
  · exact (fits_rotateLeft hwidth _).xor (fits_boundary hpos hwidth shifted)
  · exact fits_fold shifted f.window hwidth
  · intro position h
    rw [wordBit_xor, wordBit_rotateLeft hwidth (fits_fold r f.window hwidth) h,
      wordBit_fold_shifted hpos hwidth hshift h]

/-- The step that precedes the removal of the newest bit. -/
theorem rotateRight_fold {f : FoldedHistory} (hpos : 0 < f.width) (hwidth : f.width < 64)
    {r shifted : HistoryRegister}
    (hshift : ∀ age, age < f.window → shifted.bit (age + 1) = r.bit age) :
    rotateRight f.width (shifted.fold f.window f.width ^^^ f.boundary shifted) =
      r.fold f.window f.width := by
  have hback : shifted.fold f.window f.width ^^^ f.boundary shifted =
      rotateLeft f.width (r.fold f.window f.width) := by
    rw [← rotateLeft_fold hpos hwidth hshift, UInt64.xor_assoc, UInt64.xor_self,
      UInt64.xor_zero]
  rw [hback, rotateRight_rotateLeft hwidth (fits_fold r f.window hwidth)]

/-- The fold holds the register's own fold of its window.  The window is shorter than the register,
so that the bit that leaves it can still be read. -/
structure Tracks (r : HistoryRegister) (f : FoldedHistory) : Prop where
  width_lt : f.width < 64
  window_lt : f.window < r.size
  value_eq : f.value = r.fold f.window f.width

theorem Tracks.fits {r : HistoryRegister} {f : FoldedHistory} (h : f.Tracks r) :
    Fits f.width f.value := by
  rw [h.value_eq]
  exact fits_fold r f.window h.width_lt

theorem Tracks.value_lt {r : HistoryRegister} {f : FoldedHistory} (h : f.Tracks r) :
    f.value.toNat < 2 ^ f.width :=
  toNat_lt_of_wordBit h.fits

/-- A fold of the newest `window` bits into `width` bits: the register's own fold, whose bit at
each position is the parity of the bits of the ages that land there. -/
structure IsFoldOf (r : HistoryRegister) (width window : Nat) (f : FoldedHistory) :
    Prop where
  width_eq : f.width = width
  window_eq : f.window = window
  value_eq : f.value = r.fold window width
  wordBit_eq : ∀ position, position < width →
    wordBit f.value position = foldedBit r.bit width position window
  value_lt : f.value.toNat < 2 ^ width

theorem Tracks.isFoldOf {r : HistoryRegister} {f : FoldedHistory}
    (h : f.Tracks r) : f.IsFoldOf r f.width f.window where
  width_eq := rfl
  window_eq := rfl
  value_eq := h.value_eq
  wordBit_eq position hposition := by
    rw [h.value_eq]
    exact r.wordBit_fold (by omega) h.width_lt f.window position
  value_lt := h.value_lt

@[simp]
theorem width_pushed (r : HistoryRegister) (f : FoldedHistory) :
    (pushed r f).width = f.width := by
  unfold pushed
  split <;> rfl

@[simp]
theorem window_pushed (r : HistoryRegister) (f : FoldedHistory) :
    (pushed r f).window = f.window := by
  unfold pushed
  split <;> rfl

@[simp]
theorem width_popping (r : HistoryRegister) (f : FoldedHistory) :
    (popping r f).width = f.width := by
  unfold popping
  split <;> rfl

@[simp]
theorem window_popping (r : HistoryRegister) (f : FoldedHistory) :
    (popping r f).window = f.window := by
  unfold popping
  split <;> rfl

theorem pushed_tracks {r : HistoryRegister} {f : FoldedHistory} (h : f.Tracks r) (b : Bool) :
    (pushed (r.push b) f).Tracks (r.push b) where
  width_lt := by simpa using h.width_lt
  window_lt := by simpa using h.window_lt
  value_eq := by
    have hshift : ∀ age, age < f.window → (r.push b).bit (age + 1) = r.bit age := by
      intro age hage
      exact r.bit_push_succ b (by have := h.window_lt; omega)
    rw [width_pushed, window_pushed]
    cases htrivial : f.isTrivial with
    | true =>
        rw [pushed, if_pos htrivial, h.value_eq, fold_of_isTrivial htrivial,
          fold_of_isTrivial htrivial]
    | false =>
        obtain ⟨hpos, -⟩ := not_isTrivial_iff.1 htrivial
        rw [pushed, htrivial]
        change rotateLeft f.width f.value ^^^ f.boundary (r.push b) = _
        rw [h.value_eq, rotateLeft_fold hpos h.width_lt hshift]

theorem popping_tracks {r : HistoryRegister} {f : FoldedHistory} (h : f.Tracks r)
    (overwritten : Bool) :
    (popping r f).Tracks (r.unpush overwritten) where
  width_lt := by simpa using h.width_lt
  window_lt := by simpa using h.window_lt
  value_eq := by
    have hshift : ∀ age, age < f.window → r.bit (age + 1) = (r.unpush overwritten).bit age := by
      intro age hage
      exact (r.bit_unpush overwritten (by have := h.window_lt; omega)).symm
    rw [width_popping, window_popping]
    cases htrivial : f.isTrivial with
    | true =>
        rw [popping, if_pos htrivial, h.value_eq, fold_of_isTrivial htrivial,
          fold_of_isTrivial htrivial]
    | false =>
        obtain ⟨hpos, -⟩ := not_isTrivial_iff.1 htrivial
        rw [popping, htrivial]
        change rotateRight f.width (f.value ^^^ f.boundary r) = _
        rw [h.value_eq, rotateRight_fold hpos h.width_lt hshift]

theorem fold_eq_zero {r : HistoryRegister} (hr : ∀ age, r.bit age = false) (window : Nat)
    {width : Nat} (h : width < 64) : r.fold window width = 0 := by
  rcases Nat.eq_zero_or_pos width with rfl | hpos
  · exact r.fold_width_zero window
  · apply eq_of_wordBit_eq
    intro i _
    rw [r.wordBit_fold hpos h, foldedBit_of_all_false hr, wordBit_zero]

theorem zero_tracks {r : HistoryRegister} (hr : ∀ age, r.bit age = false) {width window : Nat}
    (hwidth : width < 64) (hwindow : window < r.size) : (zero width window).Tracks r where
  width_lt := hwidth
  window_lt := hwindow
  value_eq := (fold_eq_zero hr window hwidth).symm

theorem clear_tracks {r : HistoryRegister} {f : FoldedHistory} (h : f.Tracks r) :
    f.clear.Tracks r.clear :=
  zero_tracks r.bit_clear h.width_lt (by simpa using h.window_lt)

/-- Undoing a push undoes the step of the fold, whatever the bits of the register. -/
theorem popping_pushed {f : FoldedHistory} (hwidth : f.width < 64) (hfits : Fits f.width f.value)
    (r : HistoryRegister) : popping r (pushed r f) = f := by
  cases htrivial : f.isTrivial with
  | true => rw [pushed, if_pos htrivial, popping, if_pos htrivial]
  | false =>
      have hstep : pushed r f =
          { f with value := rotateLeft f.width f.value ^^^ f.boundary r } := by
        rw [pushed, htrivial]
        rfl
      have hkeeps : (pushed r f).isTrivial = false := by
        rw [hstep]
        exact htrivial
      have hboundary : (pushed r f).boundary r = f.boundary r := by
        rw [hstep]
        rfl
      have hvalue : rotateRight f.width
          (rotateLeft f.width f.value ^^^ f.boundary r ^^^ f.boundary r) = f.value := by
        rw [UInt64.xor_assoc, UInt64.xor_self, UInt64.xor_zero,
          rotateRight_rotateLeft hwidth hfits]
      rw [popping, hkeeps, hboundary, hstep]
      simp only [Bool.false_eq_true, if_false, hvalue]

end FoldedHistory

end BranchPrediction
