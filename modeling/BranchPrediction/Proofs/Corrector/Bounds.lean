import BranchPrediction.Proofs.Corrector.Weights
import Mathlib.Algebra.Order.BigOperators.Group.List

/-!
# How large the sums of a corrector can get, and its threshold

A weight of `n` bits adds an odd number between `-(2 ^ n - 1)` and `2 ^ n - 1` to the sum, so no sum
of selected weights, whole or in part, exceeds `Corrector.Config.maxSum`, whatever the weights have
learned.  This is what keeps a prediction of high confidence: its margin is a number that the sum
stays below.

The threshold moves by one at a time and stops at 1 (`Corrector.threshold_commit`); its counter goes
back to zero where the threshold moves.
-/

namespace BranchPrediction

/-- The number fits into a signed word of 32 bits. -/
def FitsInt32 (x : Int) : Prop :=
  -2 ^ 31 ≤ x ∧ x < 2 ^ 31

instance (x : Int) : Decidable (FitsInt32 x) :=
  inferInstanceAs (Decidable (_ ∧ _))

theorem fitsInt32_of_natAbs_lt {x : Int} (h : x.natAbs < 2 ^ 31) : FitsInt32 x := by
  unfold FitsInt32
  omega

namespace Corrector

/-- The largest sum, up to sign, of a corrector of this configuration. -/
def Config.maxSum (c : Config) : Nat :=
  (c.historyLengths.length + 2) * (2 ^ c.weightBits - 1)

/-! ## Sums -/

theorem natAbs_addend_le {w : Counter} {bits : Nat} (hbits : 0 < bits)
    (h : w.range = .signed bits) : (addend w).natAbs ≤ 2 ^ bits - 1 := by
  have hmin := w.min_le
  have hmax := w.le_max
  have hdouble := Nat.two_pow_pred_add_two_pow_pred hbits
  simp only [h, Counter.Range.signed, Nat.one_shiftLeft] at hmin hmax
  unfold addend
  omega

theorem total_le_mul {ws : List Counter} {bound : Int} (h : ∀ w ∈ ws, addend w ≤ bound) :
    total ws ≤ ws.length * bound := by
  rw [← nsmul_eq_mul, ← List.length_map addend]
  exact List.sum_le_card_nsmul _ _ (List.forall_mem_map.2 h)

theorem mul_le_total {ws : List Counter} {bound : Int} (h : ∀ w ∈ ws, bound ≤ addend w) :
    ws.length * bound ≤ total ws := by
  rw [← nsmul_eq_mul, ← List.length_map addend]
  exact List.card_nsmul_le_sum _ _ (List.forall_mem_map.2 h)

/-- A sum is at most as large as its summands allow. -/
theorem natAbs_total_le {ws : List Counter} {bound : Nat}
    (h : ∀ w ∈ ws, (addend w).natAbs ≤ bound) : (total ws).natAbs ≤ ws.length * bound := by
  have hupper : total ws ≤ ws.length * (bound : Int) :=
    total_le_mul fun w hw => by have := h w hw; omega
  have hlower : ws.length * (-bound : Int) ≤ total ws :=
    mul_le_total fun w hw => by have := h w hw; omega
  rw [← Nat.cast_mul] at hupper
  rw [mul_neg, ← Nat.cast_mul] at hlower
  omega

theorem length_selected_le (k : Corrector) (s : Selection) :
    (k.selected s).length ≤ k.history.size + 2 := by
  have hat : (k.at? s).length ≤ k.history.size + 2 := by
    simp only [at?, historyWeights, List.length_cons, List.length_append, List.length_map,
      Array.length_toList, Array.size_zip, List.length_nil]
    omega
  exact (List.reduceOption_length_le _).trans hat

section Sized

variable {c : Config} {k : Corrector} (hvalid : c.validate = .ok ()) (hshaped : k.Shaped)
  (hranged : k.Ranged c)

include hvalid hshaped hranged

/-- However far it has come, a sum of selected weights is at most as large as configured. -/
theorem natAbs_total_take_le (s : Selection) (count : Nat) :
    (total ((k.selected s).take count)).natAbs ≤ c.maxSum := by
  have hweight : 0 < c.weightBits := by
    obtain ⟨hsupports, -⟩ := c.counters_of_validate hvalid
    simp only [Counter.Range.supports, Bool.and_eq_true, decide_eq_true_eq] at hsupports
    exact hsupports.1
  have hlength : ((k.selected s).take count).length ≤ c.historyLengths.length + 2 := by
    have hselected := k.length_selected_le s
    rw [(hshaped.regular hranged).history_size] at hselected
    exact (List.length_take_le' _ _).trans hselected
  calc (total ((k.selected s).take count)).natAbs
      ≤ ((k.selected s).take count).length * (2 ^ c.weightBits - 1) :=
        natAbs_total_le fun w hw =>
          natAbs_addend_le hweight (hranged.range_of_mem_selected (List.mem_of_mem_take hw))
    _ ≤ c.maxSum := Nat.mul_le_mul_right _ hlength

theorem natAbs_sum_predict_le (pc : UInt64) (outcome : Direction) (confidence : Confidence)
    (primary : Direction) (path : PathHistory) :
    (k.predict pc outcome confidence primary path).sum.natAbs ≤ c.maxSum := by
  have htake := natAbs_total_take_le hvalid hshaped hranged
    (k.predict pc outcome confidence primary path).selection
    (k.selected (k.predict pc outcome confidence primary path).selection).length
  rwa [List.take_length, ← (k.sum_predict pc outcome confidence primary path).1] at htake

end Sized

/-! ## The threshold -/

/-- A commit moves the threshold by one at most, and not below 1. -/
theorem threshold_commit {k : Corrector} (hthreshold : 1 ≤ k.threshold) (lookup : Lookup)
    (outcome : Direction) :
    1 ≤ (k.commit lookup outcome).threshold ∧
      (k.commit lookup outcome).threshold ≤ k.threshold + 1 := by
  have htrain : (k.trainWeights lookup outcome).threshold = k.threshold := rfl
  rw [commit_eq]
  split
  · split
    · simp only [lowerThreshold]
      split
      · simp only [htrain]
        omega
      · simp only [htrain]
        omega
    · omega
  · simp only [raiseThreshold]
    split
    · simp only [htrain]
      omega
    · simp only [htrain]
      omega

theorem Reachable.one_le_threshold {c : Config} {k : Corrector} (hvalid : c.validate = .ok ())
    (hk : Reachable c k) : 1 ≤ k.threshold := by
  induction hk with
  | blank => exact c.threshold_of_validate hvalid
  | commit _ lookup outcome ih => exact (threshold_commit ih lookup outcome).1
  | pushed _ _ ih => exact ih
  | popping _ _ ih => exact ih
  | reset h _ =>
      rw [h.reset_eq]
      exact c.threshold_of_validate hvalid

/-! ## Overriding -/

theorem overridden_iff (k : Corrector) (pc : UInt64) (outcome : Direction)
    (confidence : Confidence) (primary : Direction) (path : PathHistory) :
    let lookup := k.predict pc outcome confidence primary path
    lookup.overridden = true ↔
      lookup.outcome ≠ primary ∧ k.margin confidence ≤ (lookup.sum.natAbs : Int) := by
  simp only [predict, Bool.and_eq_true, decide_eq_true_eq]

/-- An overridden prediction is the opposite of what it was. -/
theorem prediction_of_overridden (k : Corrector) {pc : UInt64} {outcome : Direction}
    {confidence : Confidence} {primary : Direction} {path : PathHistory}
    (h : (k.predict pc outcome confidence primary path).overridden = true) :
    (k.predict pc outcome confidence primary path).prediction = primary.opposite := by
  obtain ⟨hne, -⟩ := (k.overridden_iff pc outcome confidence primary path).1 h
  have hprediction : (k.predict pc outcome confidence primary path).prediction =
      (k.predict pc outcome confidence primary path).outcome := if_pos h
  rw [hprediction]
  exact Direction.eq_opposite_of_ne hne

def commitAll (k : Corrector) (commits : List (Lookup × Direction)) : Corrector :=
  commits.foldl (fun k (lookup, outcome) => k.commit lookup outcome) k

theorem Reachable.commitAll {c : Config} {k : Corrector} (h : Reachable c k)
    (commits : List (Lookup × Direction)) : Reachable c (k.commitAll commits) := by
  induction commits generalizing k with
  | nil => exact h
  | cons commit rest ih => exact ih (h.commit commit.1 commit.2)

end Corrector

/-- The sums and the threshold of a corrector stay where they belong.  Let the configured number of
tables and width of the weights keep the largest possible sum below `2 ^ 31 - 1`.  Then in every
state, and for every branch, no sum of selected weights, whole or in part, exceeds it, so that all
of them fit into 32 bits; a prediction of high confidence is not overridden; and one that is
overridden has a sum at least as large as the margin of its confidence and ends up as the opposite.
Whatever is committed from there on, the threshold stays positive and its counter in its range. -/
theorem corrector_bounded {c : Corrector.Config} (hvalid : c.validate = .ok ())
    (hsum : (c.historyLengths.length + 2) * (2 ^ c.weightBits - 1) < 2 ^ 31 - 1) {k : Corrector}
    (hk : Corrector.Reachable c k) :
    (∀ (pc : UInt64) (outcome : Direction) (confidence : Confidence) (primary : Direction)
      (path : PathHistory),
      let lookup := k.predict pc outcome confidence primary path
      (∀ count, FitsInt32 (Corrector.total ((k.selected lookup.selection).take count))) ∧
        lookup.sum.natAbs ≤ (c.historyLengths.length + 2) * (2 ^ c.weightBits - 1) ∧
        (confidence = .high → lookup.overridden = false) ∧
        (lookup.overridden = true →
          k.margin confidence ≤ (lookup.sum.natAbs : Int) ∧
            lookup.prediction = primary.opposite)) ∧
      ∀ commits : List (Corrector.Lookup × Direction),
        1 ≤ (k.commitAll commits).threshold ∧
          (k.commitAll commits).thresholdCounter.Within (.signed c.thresholdBits) := by
  have hmax : c.maxSum < 2 ^ 31 - 1 := hsum
  have hshaped := hk.shaped hvalid
  refine ⟨fun pc outcome confidence primary path => ?_, fun commits => ?_⟩
  · have hbound :=
      Corrector.natAbs_sum_predict_le hvalid hshaped hk.ranged pc outcome confidence primary path
    have hiff := k.overridden_iff pc outcome confidence primary path
    simp only at hiff ⊢
    refine ⟨fun count => ?_, hbound, fun hhigh => ?_, fun hover => ?_⟩
    · have htake := Corrector.natAbs_total_take_le hvalid hshaped hk.ranged
        (k.predict pc outcome confidence primary path).selection count
      exact fitsInt32_of_natAbs_lt (by omega)
    · subst hhigh
      rw [Bool.eq_false_iff, ne_eq, hiff, Corrector.margin]
      omega
    · exact ⟨(hiff.1 hover).2, Corrector.prediction_of_overridden k hover⟩
  · have hafter := hk.commitAll commits
    exact ⟨hafter.one_le_threshold hvalid, Counter.within hafter.ranged.threshold⟩

/-- A configuration of small tables. -/
def Corrector.small : Corrector.Config where
  biasLogSize := 1
  historyLengths := [2, 3]
  historyLogSize := 1
  pathLogSize := 1
  weightBits := 2
  threshold := 3
  thresholdBits := 1

/-- As `small`, with a counter that can tell a step down from the next one. -/
def Corrector.adapting : Corrector.Config :=
  { small with threshold := 5, thresholdBits := 2 }

/-- A branch that is twice not taken.  The first sum is wrong and raises the threshold; the second
is right but small and counts down.  Both train the weights, which then override `taken` unless the
confidence is high. -/
theorem overriding_corrector_bounded :
    let k := Corrector.blank Corrector.adapting
    let first := k.predict 4 .taken .low .taken (.empty 3)
    let second := (k.commit first .notTaken).predict 4 .taken .low .taken (.empty 3)
    let trained := k.commitAll [(first, .notTaken), (second, .notTaken)]
    let lookup := trained.predict 4 .taken .low .taken (.empty 3)
    (Corrector.adapting.validate = .ok () ∧ (2 + 2) * (2 ^ 2 - 1) < 2 ^ 31 - 1 ∧
      first.overridden = false ∧ k.threshold = 5 ∧ k.thresholdCounter.value = 0 ∧
      (k.selected first.selection).map (·.value) = [0, 0, 0, 0]) ∧
    (lookup.overridden = true ∧ trained.threshold = 6 ∧ trained.thresholdCounter.value = -1 ∧
      (trained.selected lookup.selection).map (·.value) = [-2, -2, -2, -2]) ∧
    (FitsInt32 (Corrector.total ((trained.selected lookup.selection).take 3)) ∧
      trained.margin .low ≤ (lookup.sum.natAbs : Int) ∧ lookup.prediction = .notTaken ∧
      (trained.predict 4 .taken .high .taken (.empty 3)).overridden = false) ∧
    1 ≤ trained.threshold ∧ trained.thresholdCounter.Within (.signed 2) := by
  intro k first second trained lookup
  have hreachable : Corrector.Reachable Corrector.adapting trained := .commitAll .blank _
  obtain ⟨hlookups, -⟩ := corrector_bounded (c := Corrector.adapting) rfl (by decide) hreachable
  obtain ⟨-, hcommits⟩ := corrector_bounded (c := Corrector.adapting) rfl (by decide) .blank
  obtain ⟨hfits, -, -, hover⟩ := hlookups 4 .taken .low .taken (.empty 3)
  obtain ⟨-, -, hhigh, -⟩ := hlookups 4 .taken .high .taken (.empty 3)
  have hoverridden : lookup.overridden = true := by decide +kernel
  obtain ⟨hmargin, hprediction⟩ := hover hoverridden
  exact ⟨⟨rfl, by decide, by decide +kernel, rfl, rfl, by decide +kernel⟩,
    ⟨hoverridden, by decide +kernel, by decide +kernel, by decide +kernel⟩,
    ⟨hfits 3, hmargin, hprediction, hhigh rfl⟩, hcommits _⟩

end BranchPrediction
