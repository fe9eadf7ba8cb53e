import BranchPrediction.Proofs.History.Fold

/-!
# Folds, chunk by chunk

The two hashes of a tagged table cut bits into chunks and combine the chunks by XOR.  The path is
folded as a word, by a loop that masks the lowest chunk and shifts it out until nothing is left.
The history is folded as a sequence of bits that is cut into chunks, the last one as short as it
has to be.  `foldBits_agrees` says that the loop ends and that the two folds are one function of
the bits.

Both folds are compared with `foldedBit`, the parity of the bits that land at a position.
`foldedBit_add_width` takes one chunk off it, and each fold then needs one induction over its own
recursion, whether or not the width divides the number of bits.
-/

namespace BranchPrediction

open FoldedHistory (Fits eq_of_fits fits_fold)

/-! ## Taking a chunk off the parity -/

theorem foldedBit_congr {bit other : Nat → Bool} {window : Nat}
    (h : ∀ i, i < window → bit i = other i) (width position : Nat) :
    foldedBit bit width position window = foldedBit other width position window := by
  induction window with
  | zero => rfl
  | succ window ih =>
      have hrest : ∀ i, i < window → bit i = other i := by
        intro i hi
        exact h i (by omega)
      rw [foldedBit, foldedBit, ih hrest, h window (Nat.lt_succ_self window)]

theorem foldedBit_xor (bit other : Nat → Bool) (width position window : Nat) :
    foldedBit (fun i => bit i ^^ other i) width position window =
      (foldedBit bit width position window ^^ foldedBit other width position window) := by
  induction window with
  | zero => rfl
  | succ window ih =>
      rw [foldedBit, foldedBit, foldedBit, ih, Bool.and_xor_distrib_right, Bool.xor_assoc,
        Bool.xor_assoc, Bool.xor_left_comm (foldedBit other width position window)]

/-- In a window of one chunk at most, nothing lands on anything else. -/
theorem foldedBit_of_le_width (bit : Nat → Bool) {width position window : Nat}
    (h : window ≤ width) :
    foldedBit bit width position window = (bit position && decide (position < window)) := by
  induction window with
  | zero => simp [foldedBit]
  | succ window ih =>
      rw [foldedBit, ih (by omega), Nat.mod_eq_of_lt (by omega)]
      rcases Nat.lt_trichotomy position window with hlt | rfl | hgt
      · have hne : window ≠ position := by omega
        have hlt' : position < window + 1 := by omega
        simp [hlt, hlt', beq_false_of_ne hne]
      · simp
      · have hne : window ≠ position := by omega
        have hnot : ¬ position < window := by omega
        have hnot' : ¬ position < window + 1 := by omega
        simp [hnot, hnot', beq_false_of_ne hne]

/-- The first chunk has one bit for each position, and the chunks after it fold as they would by
themselves. -/
theorem foldedBit_add_width (bit : Nat → Bool) {width position : Nat} (h : position < width)
    (window : Nat) :
    foldedBit bit width position (width + window) =
      (bit position ^^ foldedBit (fun i => bit (width + i)) width position window) := by
  induction window with
  | zero =>
      rw [Nat.add_zero, foldedBit_of_le_width bit (Nat.le_refl width)]
      simp [h, foldedBit]
  | succ window ih =>
      rw [← Nat.add_assoc, foldedBit, ih, foldedBit, Nat.add_mod_left, Bool.xor_assoc]

/-- A window may go on to where there are no more bits. -/
theorem foldedBit_eq_of_le {bit : Nat → Bool} {length window : Nat}
    (h : ∀ i, length ≤ i → bit i = false) (hle : length ≤ window) (width position : Nat) :
    foldedBit bit width position window = foldedBit bit width position length := by
  induction hle with
  | refl => rfl
  | @step window hle ih => rw [foldedBit, ih, h window hle, Bool.false_and, Bool.xor_false]

/-! ## The fold of a word -/

/-- No bit of a word is at position 64 or beyond, so the parity is taken over the whole word. -/
theorem wordBit_foldBits (value : UInt64) {width position : Nat} (hlt : width < 64)
    (h : position < width) :
    wordBit (foldBits value width) position = foldedBit (wordBit value) width position 64 := by
  fun_induction foldBits value width with
  | case1 value hdone =>
      have hvalue : value = 0 := hdone.resolve_right (by omega)
      rw [wordBit_zero, foldedBit_of_all_false (by simp [hvalue])]
  | case2 value hmore ih =>
      have hshift : (fun i => wordBit value (width + i)) =
          wordBit (value >>> UInt64.ofNat width) := by
        funext i
        rw [wordBit_shiftRight _ hlt]
      have hwhole : foldedBit (wordBit value) width position (width + 64) =
          foldedBit (wordBit value) width position 64 :=
        foldedBit_eq_of_le (fun _ => wordBit_of_ge value) (by omega) width position
      rw [wordBit_xor, wordBit_and, wordBit_lowMask hlt, ih, ← hwhole,
        foldedBit_add_width _ h, hshift]
      simp [h]

theorem fits_foldBits (value : UInt64) {width : Nat} (hlt : width < 64) :
    Fits width (foldBits value width) := by
  fun_induction foldBits value width with
  | case1 => exact fun i _ => wordBit_zero i
  | case2 value hmore ih =>
      refine Fits.xor ?_ ih
      intro i hi
      have hout : ¬ i < width := by omega
      rw [wordBit_and, wordBit_lowMask hlt]
      simp [hout]

theorem foldBits_xor (a b : UInt64) {width : Nat} (hlt : width < 64) :
    foldBits (a ^^^ b) width = foldBits a width ^^^ foldBits b width := by
  apply eq_of_fits (fits_foldBits _ hlt) ((fits_foldBits a hlt).xor (fits_foldBits b hlt))
  intro i hi
  have hbits : wordBit (a ^^^ b) = fun i => wordBit a i ^^ wordBit b i := by
    funext i
    exact wordBit_xor a b i
  rw [wordBit_xor, wordBit_foldBits _ hlt hi, wordBit_foldBits _ hlt hi,
    wordBit_foldBits _ hlt hi, hbits, foldedBit_xor]

/-! ## The loop -/

/-- The variables of the loop that folds a word. -/
structure Folding where
  /-- The chunks that are still to be taken. -/
  rest : UInt64
  /-- Those that were taken, combined. -/
  folded : UInt64

namespace Folding

variable {width passes : Nat} {s : Folding} {result : UInt64}

/-- One pass of the loop takes the lowest chunk. -/
def pass (width : Nat) (s : Folding) : Folding :=
  ⟨s.rest >>> UInt64.ofNat width, s.folded ^^^ (s.rest &&& lowMask width)⟩

/-- The loop is left after this many passes, with this result. -/
inductive Ends (width : Nat) : Nat → Folding → UInt64 → Prop
  | done (folded : UInt64) : Ends width 0 ⟨0, folded⟩ folded
  | more {passes : Nat} {s : Folding} {result : UInt64} (hrest : s.rest ≠ 0)
      (later : Ends width passes (s.pass width) result) : Ends width (passes + 1) s result

/-- The loop ends, with what was folded before combined with the fold of what was left. -/
theorem exists_ends (hpos : 0 < width) (hlt : width < 64) (value folded : UInt64) :
    ∃ passes, Ends width passes ⟨value, folded⟩ (folded ^^^ foldBits value width) := by
  fun_induction foldBits value width generalizing folded with
  | case1 value hdone =>
      obtain rfl : value = 0 := hdone.resolve_right (by omega)
      exact ⟨0, by simpa using Ends.done folded⟩
  | case2 value hmore ih =>
      obtain ⟨passes, hlater⟩ := ih (folded ^^^ (value &&& lowMask width))
      rw [UInt64.xor_assoc] at hlater
      exact ⟨passes + 1, .more (fun hvalue => hmore (.inl hvalue)) hlater⟩

/-- No more passes are made than it takes chunks to hold all bits. -/
theorem Ends.passes_mul_lt (hpos : 0 < width) (hlt : width < 64)
    (h : Ends width passes s result) {length : Nat}
    (hlength : ∀ i, length ≤ i → wordBit s.rest i = false) :
    passes * width < length + width := by
  induction h generalizing length with
  | done => omega
  | @more passes s result hrest later ih =>
      have hshort : ∀ i, length - width ≤ i → wordBit (s.pass width).rest i = false := by
        intro i hi
        rw [pass, wordBit_shiftRight _ hlt]
        exact hlength _ (by omega)
      have hnonempty : length ≠ 0 := by
        rintro rfl
        apply hrest
        apply eq_of_wordBit_eq
        intro i _
        rw [hlength i (Nat.zero_le i), wordBit_zero]
      have hless := ih hshort
      rw [Nat.succ_mul]
      by_cases hle : width ≤ length
      · omega
      · -- The pass took all that was left, so it was the last one.
        rw [Nat.sub_eq_zero_of_le (by omega), Nat.zero_add] at hless
        have hnone : passes = 0 := by
          rcases Nat.eq_zero_or_pos passes with hnone | hsome
          · exact hnone
          · exact absurd hless (Nat.not_lt.2 (Nat.le_mul_of_pos_left width hsome))
        rw [hnone, Nat.zero_mul]
        omega

theorem not_ends_of_width_zero (hrest : s.rest ≠ 0) : ¬ Ends 0 passes s result := by
  intro h
  induction h with
  | done => exact hrest rfl
  | @more passes s result hsome later ih =>
      apply ih
      have hshift : (s.pass 0).rest = s.rest := by simp [Folding.pass]
      rwa [hshift]

end Folding

/-! ## The fold of a sequence of bits -/

/-- Load bits into a word, the first one lowest. -/
def loadBits : List Bool → UInt64
  | [] => 0
  | b :: rest => b.toUInt64 ||| (loadBits rest <<< 1)

/-- Cut bits into chunks, the last one as short as it has to be.  There are no chunks of no bits. -/
def chunksOf (width : Nat) (bits : List Bool) : List (List Bool) :=
  if _h : bits = [] ∨ width = 0 then []
  else bits.take width :: chunksOf width (bits.drop width)
termination_by bits.length
decreasing_by
  have hlength : 0 < bits.length := List.length_pos_iff.2 fun hbits => _h (.inl hbits)
  rw [List.length_drop]
  omega

/-- Load the chunks of a sequence of bits and combine them by XOR. -/
def foldChunks (width : Nat) (bits : List Bool) : UInt64 :=
  (chunksOf width bits).foldl (fun acc chunk => acc ^^^ loadBits chunk) 0

theorem wordBit_loadBits (bits : List Bool) {i : Nat} (h : i < 64) :
    wordBit (loadBits bits) i = bits.getD i false := by
  have hone : ∀ x : UInt64, x <<< 1 = x <<< UInt64.ofNat 1 := fun _ => rfl
  induction bits generalizing i with
  | nil => simp [loadBits]
  | cons b rest ih =>
      rw [loadBits, wordBit_or, wordBit_toUInt64, hone, wordBit_shiftLeft _ (by omega)]
      cases i with
      | zero => simp
      | succ i => simp [h, ih (i := i) (by omega)]

theorem foldl_xor_load (chunks : List (List Bool)) (acc : UInt64) :
    chunks.foldl (fun acc chunk => acc ^^^ loadBits chunk) acc =
      acc ^^^ chunks.foldl (fun acc chunk => acc ^^^ loadBits chunk) 0 := by
  induction chunks generalizing acc with
  | nil => simp
  | cons chunk chunks ih =>
      rw [List.foldl_cons, List.foldl_cons, ih, ih (0 ^^^ loadBits chunk), UInt64.zero_xor,
        UInt64.xor_assoc]

theorem foldChunks_nil (width : Nat) : foldChunks width [] = 0 := by
  simp [foldChunks, chunksOf]

theorem foldChunks_of_ne_nil {bits : List Bool} (hbits : bits ≠ []) {width : Nat}
    (hpos : 0 < width) :
    foldChunks width bits = loadBits (bits.take width) ^^^ foldChunks width (bits.drop width) := by
  have hmore : ¬ (bits = [] ∨ width = 0) := by
    rintro (hnil | hzero)
    · exact hbits hnil
    · omega
  rw [foldChunks, chunksOf, dif_neg hmore, List.foldl_cons, foldl_xor_load, UInt64.zero_xor]
  rfl

theorem wordBit_foldChunks (bits : List Bool) {width position : Nat} (hlt : width < 64)
    (h : position < width) :
    wordBit (foldChunks width bits) position =
      foldedBit (bits.getD · false) width position bits.length := by
  fun_induction chunksOf width bits with
  | case1 bits hdone =>
      obtain rfl : bits = [] := hdone.resolve_right (by omega)
      rw [foldChunks_nil, wordBit_zero]
      rfl
  | case2 bits hmore ih =>
      have hbits : bits ≠ [] := fun hbits => hmore (.inl hbits)
      have hend : ∀ i, bits.length ≤ i → bits.getD i false = false := by
        intro i hi
        rw [List.getD_eq_getElem?_getD, List.getElem?_eq_none hi, Option.getD_none]
      have hrest : (fun i => bits.getD (width + i) false) = ((bits.drop width).getD · false) := by
        funext i
        simp only [List.getD_eq_getElem?_getD, List.getElem?_drop]
      have hfirst : (bits.take width).getD position false = bits.getD position false := by
        simp only [List.getD_eq_getElem?_getD, List.getElem?_take_of_lt h]
      have hwhole : foldedBit (bits.getD · false) width position (width + (bits.length - width)) =
          foldedBit (bits.getD · false) width position bits.length :=
        foldedBit_eq_of_le hend (by omega) width position
      rw [foldChunks_of_ne_nil hbits (by omega), wordBit_xor, wordBit_loadBits _ (by omega), ih,
        List.length_drop, ← hwhole, foldedBit_add_width _ h, hrest, hfirst]

theorem fits_loadBits {bits : List Bool} {width : Nat} (h : bits.length ≤ width) :
    Fits width (loadBits bits) := by
  intro i hi
  rcases Nat.lt_or_ge i 64 with hlt | hge
  · rw [wordBit_loadBits bits hlt, List.getD_eq_getElem?_getD, List.getElem?_eq_none (by omega),
      Option.getD_none]
  · exact wordBit_of_ge _ hge

theorem fits_foldChunks (bits : List Bool) {width : Nat} (hpos : 0 < width) :
    Fits width (foldChunks width bits) := by
  fun_induction chunksOf width bits with
  | case1 bits hdone =>
      obtain rfl : bits = [] := hdone.resolve_right (by omega)
      rw [foldChunks_nil]
      exact fun i _ => wordBit_zero i
  | case2 bits hmore ih =>
      rw [foldChunks_of_ne_nil (fun hbits => hmore (.inl hbits)) hpos]
      exact (fits_loadBits (List.length_take_le width bits)).xor ih

/-- The fold of a register is that of its newest bits, cut into chunks. -/
theorem HistoryRegister.fold_eq_foldChunks (r : HistoryRegister) {width : Nat} (hpos : 0 < width)
    (hlt : width < 64) (window : Nat) :
    r.fold window width = foldChunks width (r.read window) := by
  have hread : ∀ i, i < window → (r.read window).getD i false = r.bit i := by
    intro i hi
    simp [read, hi]
  have hlength : (r.read window).length = window := by simp [read]
  apply eq_of_fits (fits_fold r window hlt) (fits_foldChunks _ hpos)
  intro i hi
  rw [r.wordBit_fold hpos hlt, wordBit_foldChunks _ hlt hi, hlength, foldedBit_congr hread]

/-! ## The two folds -/

theorem HistoryRegister.fold_eq_foldBits (r : HistoryRegister) {width : Nat} (hpos : 0 < width)
    (hlt : width < 64) {value : UInt64} (hbits : ∀ age, age < 64 → r.bit age = wordBit value age) :
    r.fold 64 width = foldBits value width := by
  apply eq_of_fits (fits_fold r 64 hlt) (fits_foldBits value hlt)
  intro i hi
  rw [r.wordBit_fold hpos hlt, wordBit_foldBits value hlt hi, foldedBit_congr hbits]

/-- The two XOR folds agree.  For every width below 64 except zero, the loop that folds a word ends
after no more passes than it takes chunks to hold 64 bits; its result is below the power of two of
the width; every register whose bits of the ages below 64 are the bits of the word has it as the
fold of its newest 64 bits, which is also what these bits give when they are cut into chunks; and it
distributes over XOR. -/
theorem foldBits_agrees (value : UInt64) {width : Nat} (hpos : 0 < width) (hlt : width < 64) :
    (∃ passes, passes * width < 64 + width ∧
        Folding.Ends width passes ⟨value, 0⟩ (foldBits value width)) ∧
      (foldBits value width).toNat < 2 ^ width ∧
      (∀ r : HistoryRegister, (∀ age, age < 64 → r.bit age = wordBit value age) →
        r.fold? 64 width = some (foldBits value width) ∧
          foldChunks width (r.read 64) = foldBits value width) ∧
      ∀ a b, foldBits (a ^^^ b) width = foldBits a width ^^^ foldBits b width := by
  refine ⟨?_, toNat_lt_of_wordBit (fits_foldBits value hlt), ?_, fun a b => foldBits_xor a b hlt⟩
  · obtain ⟨passes, hends⟩ := Folding.exists_ends hpos hlt value 0
    rw [UInt64.zero_xor] at hends
    exact ⟨passes, hends.passes_mul_lt hpos hlt fun _ => wordBit_of_ge value, hends⟩
  · intro r hbits
    have hfold := r.fold_eq_foldBits hpos hlt hbits
    refine ⟨?_, ?_⟩
    · rw [HistoryRegister.fold?, if_neg (by omega), hfold]
    · rw [← r.fold_eq_foldChunks hpos hlt, hfold]

/-- A word with bits in each of its thirteen chunks of five. -/
def unevenWord : UInt64 := 0xb504f333f9de6484

/-- A register that went around its circle and then took in the word, highest bit first. -/
def unevenRegister : HistoryRegister :=
  (List.replicate 10 true ++ (List.range 64).reverse.map (wordBit unevenWord)).foldl
    HistoryRegister.push (.zeros 70 (by decide))

/-- The last of the thirteen chunks has four bits only. -/
theorem unevenWord_folds_agree :
    0 < 5 ∧ 5 < 64 ∧
      (∀ age, age < 64 → unevenRegister.bit age = wordBit unevenWord age) ∧
      foldBits unevenWord 5 = 25 ∧
      unevenRegister.fold? 64 5 = some (foldBits unevenWord 5) ∧
      foldChunks 5 (unevenRegister.read 64) = foldBits unevenWord 5 ∧
      ∃ passes, passes * 5 < 64 + 5 ∧
        Folding.Ends 5 passes ⟨unevenWord, 0⟩ (foldBits unevenWord 5) := by
  have hbits : ∀ age, age < 64 → unevenRegister.bit age = wordBit unevenWord age := by
    decide +kernel
  have hpos : 0 < 5 := by decide
  have hlt : 5 < 64 := by decide
  obtain ⟨hends, -, hfold, -⟩ := foldBits_agrees unevenWord hpos hlt
  obtain ⟨hregister, hchunks⟩ := hfold unevenRegister hbits
  exact ⟨hpos, hlt, hbits, by decide +kernel, hregister, hchunks, hends⟩

end BranchPrediction
