import BranchPrediction.Proofs.Safety.Regular
import BranchPrediction.Proofs.Validation
import Mathlib.Algebra.Order.Ring.Int
import Mathlib.Data.List.ReduceOption

/-!
# The weights that a lookup selects

A lookup selects one weight in each table of the corrector.  `Corrector.selected` lists them in the
order in which they are summed: the bias weight, one weight of each history table, the path weight.
The corrector knows its weights through this list: the sum of a lookup is the total of what they add
(`sumAt_eq`), and to train the weights of a lookup is to train each member of the list
(`selected_trainWeights`).

The states that a corrector can be in are `Corrector.Reachable`.  In each of them a lookup selects
exactly one weight of each table, all of the configured width (`Reachable.length_selected`,
`Reachable.range_of_mem_selected`).
-/

namespace BranchPrediction

namespace Corrector

/-! ## States -/

/-- The correctors that a new one leads to: by commits of any lookups, by moves of the history, and
by resets. -/
inductive Reachable (c : Config) : Corrector → Prop
  | blank : Reachable c (blank c)
  | commit {k : Corrector} (h : Reachable c k) (lookup : Lookup) (outcome : Direction) :
      Reachable c (k.commit lookup outcome)
  | pushed {k : Corrector} (h : Reachable c k) (r : HistoryRegister) :
      Reachable c (HistoryView.pushed r k)
  | popping {k : Corrector} (h : Reachable c k) (r : HistoryRegister) :
      Reachable c (HistoryView.popping r k)
  | reset {k : Corrector} (h : Reachable c k) : Reachable c k.reset

namespace Reachable

variable {c : Config} {k : Corrector}

theorem ranged (h : Reachable c k) : k.Ranged c := by
  induction h with
  | blank => exact .blank c
  | commit _ lookup outcome ih => exact ih.commit lookup outcome
  | pushed _ r ih =>
      rw [FoldFamily.pushed_eq]
      exact ih.mapFolds _
  | popping _ r ih =>
      rw [FoldFamily.popping_eq]
      exact ih.mapFolds _
  | reset _ ih => exact ih.reset

theorem reset_eq (h : Reachable c k) : k.reset = Corrector.blank c := by
  rw [Corrector.reset, h.ranged.config_eq]

theorem shaped (hvalid : c.validate = .ok ()) (h : Reachable c k) : k.Shaped := by
  obtain ⟨hbias, hhistory, hpath⟩ := c.logSizes_of_validate hvalid
  have hblank : (Corrector.blank c).Shaped :=
    shaped_blank (by omega) (by omega) (by omega)
  induction h with
  | blank => exact hblank
  | commit _ lookup outcome ih => exact ih.commit lookup outcome
  | pushed _ r ih =>
      rw [FoldFamily.pushed_eq]
      exact ih.mapFolds (keepsShape_pushed r)
  | popping _ r ih =>
      rw [FoldFamily.popping_eq]
      exact ih.mapFolds (keepsShape_popping r)
  | reset h _ =>
      rw [h.reset_eq]
      exact hblank

end Reachable

/-! ## Selections -/

/-- Where a lookup finds its weights. -/
structure Selection where
  biasIndex : Nat
  historyIndices : Array Nat
  pathIndex : Nat
  deriving DecidableEq, Repr

/-- The weights that a lookup selects are those at its selection. -/
def Lookup.selection (lookup : Lookup) : Selection where
  biasIndex := lookup.biasIndex
  historyIndices := lookup.historyIndices
  pathIndex := lookup.pathIndex

/-- What the tables have at a selection, in the order of the sum. -/
def at? (k : Corrector) (s : Selection) : List (Option Counter) :=
  k.bias[s.biasIndex]? :: (k.historyWeights s.historyIndices ++ [k.path[s.pathIndex]?])

/-- The weights at a selection, in the order of the sum. -/
def selected (k : Corrector) (s : Selection) : List Counter :=
  (k.at? s).reduceOption

/-- What a weight adds to the sum: an odd number, positive if the weight stands for *taken*. -/
def addend (w : Counter) : Int :=
  2 * w.value + 1

/-- What some weights add up to. -/
def total (ws : List Counter) : Int :=
  (ws.map addend).sum

/-- Places without a weight add nothing. -/
theorem sum_contribution (ws : List (Option Counter)) :
    (ws.map contribution).sum = total ws.reduceOption := by
  induction ws with
  | nil => rfl
  | cons w? rest ih =>
      rw [List.map_cons, List.sum_cons, ih]
      cases w? with
      | none =>
          rw [List.reduceOption_cons_of_none]
          simp only [contribution, Int.zero_add]
      | some w =>
          rw [List.reduceOption_cons_of_some]
          rfl

/-- The sum of a lookup is what its weights add up to. -/
theorem sumAt_eq (k : Corrector) (s : Selection) :
    k.sumAt s.biasIndex s.historyIndices s.pathIndex = total (k.selected s) := by
  have hhistory : ((k.historyWeights s.historyIndices).map contribution).foldr (· + ·) 0 =
      ((k.historyWeights s.historyIndices).map contribution).sum := rfl
  rw [selected, ← sum_contribution, at?, List.map_cons, List.map_append, List.sum_cons,
    List.sum_append, sumAt, hhistory]
  simp only [List.map_cons, List.map_nil, List.sum_cons, List.sum_nil, Int.add_zero, Int.add_assoc]

/-- What a lookup reads in the present state. -/
theorem sum_predict (k : Corrector) (pc : UInt64) (outcome : Direction) (confidence : Confidence)
    (primary : Direction) (path : PathHistory) :
    let lookup := k.predict pc outcome confidence primary path
    lookup.sum = total (k.selected lookup.selection) ∧
      lookup.outcome = .ofBool (0 ≤ total (k.selected lookup.selection)) := by
  simp only [← sumAt_eq]
  exact ⟨rfl, rfl⟩

/-! ## Training -/

/-- Training changes each history table at its own index. -/
theorem getElem?_trainTables (outcome : Direction) (indices : List Nat) (first table : Nat)
    (history : Array (Array Counter)) :
    ((indices.zipIdx first).foldl
      (fun history (i, table) => history.modify table (·.modify i (·.train outcome)))
      history)[table]? =
    (history[table]?).map fun ws =>
      if first ≤ table then (indices[table - first]?).elim ws (ws.modify · (·.train outcome))
      else ws := by
  induction indices generalizing first history with
  | nil => simp
  | cons i rest ih =>
      rw [List.zipIdx_cons, List.foldl_cons, ih, Array.getElem?_modify]
      rcases Nat.lt_trichotomy table first with hlt | rfl | hgt
      · have hnot : ¬first + 1 ≤ table := by omega
        simp [Nat.ne_of_gt hlt, Nat.not_le_of_gt hlt, hnot]
      · have hnot : ¬table + 1 ≤ table := by omega
        simp [hnot, Function.comp_def]
      · have hsub : table - first = table - (first + 1) + 1 := by omega
        have hle : first + 1 ≤ table := hgt
        simp [Nat.ne_of_lt hgt, Nat.le_of_lt hgt, hle, hsub]

theorem getElem?_trainHistory (outcome : Direction) (indices : Array Nat)
    (history : Array (Array Counter)) (table : Nat) :
    (trainHistory outcome indices history)[table]? =
      (history[table]?).map fun ws =>
        (indices[table]?).elim ws (ws.modify · (·.train outcome)) := by
  rw [trainHistory, getElem?_trainTables]
  simp

/-- A weight is trained where its table is. -/
theorem getElem?_train (ws : Array Counter) (i : Nat) (outcome : Direction) :
    (ws.modify i (·.train outcome))[i]? = (ws[i]?).map (·.train outcome) := by
  rw [Array.getElem?_modify, if_pos rfl]

theorem historyWeights_eq (k : Corrector) (indices : Array Nat) :
    k.historyWeights indices =
      List.zipWith (fun (ws : Array Counter) i => ws[i]?) k.history.toList indices.toList := by
  rw [historyWeights, Array.toList_zip, List.zip_eq_zipWith, List.map_zipWith]

theorem historyWeights_trainWeights (k : Corrector) (lookup : Lookup) (outcome : Direction) :
    (k.trainWeights lookup outcome).historyWeights lookup.historyIndices =
      (k.historyWeights lookup.historyIndices).map (Option.map (·.train outcome)) := by
  apply List.ext_getElem?
  intro table
  have hhistory : (k.trainWeights lookup outcome).history =
      trainHistory outcome lookup.historyIndices k.history := rfl
  simp only [historyWeights_eq, List.getElem?_map, List.getElem?_zipWith, Array.getElem?_toList,
    hhistory, getElem?_trainHistory]
  cases hrow : k.history[table]? with
  | none => simp
  | some ws =>
      cases hindex : lookup.historyIndices[table]? with
      | none => simp
      | some i => simp [getElem?_train]

/-- To train the weights of a lookup is to train each of them. -/
theorem selected_trainWeights (k : Corrector) (lookup : Lookup) (outcome : Direction) :
    (k.trainWeights lookup outcome).selected lookup.selection =
      (k.selected lookup.selection).map (·.train outcome) := by
  have hat : (k.trainWeights lookup outcome).at? lookup.selection =
      (k.at? lookup.selection).map (Option.map (·.train outcome)) := by
    have hhistory := k.historyWeights_trainWeights lookup outcome
    have hbias := getElem?_train k.bias lookup.biasIndex outcome
    have hpath := getElem?_train k.path lookup.pathIndex outcome
    simp only [at?, Lookup.selection, List.map_cons, List.map_append, List.map_nil]
    rw [hhistory, ← hbias, ← hpath]
    rfl
  rw [selected, hat, List.reduceOption_map, selected]

theorem selected_raiseThreshold (k : Corrector) (s : Selection) :
    k.raiseThreshold.selected s = k.selected s := by
  simp only [raiseThreshold]
  split
  · rfl
  · rfl

theorem selected_lowerThreshold (k : Corrector) (s : Selection) :
    k.lowerThreshold.selected s = k.selected s := by
  simp only [lowerThreshold]
  split
  · rfl
  · rfl

/-- What a commit does to the weights that its lookup selected. -/
theorem selected_commit (k : Corrector) (lookup : Lookup) (outcome : Direction) :
    (k.commit lookup outcome).selected lookup.selection =
      if lookup.outcome = outcome ∧ k.threshold ≤ lookup.sum.natAbs then
        k.selected lookup.selection
      else (k.selected lookup.selection).map (·.train outcome) := by
  rw [commit_eq]
  by_cases hcorrect : lookup.outcome = outcome
  · by_cases hsmall : (lookup.sum.natAbs : Int) < k.threshold
    · rw [if_pos hcorrect, if_pos hsmall, if_neg (by omega), selected_lowerThreshold,
        selected_trainWeights]
    · rw [if_pos hcorrect, if_neg hsmall, if_pos ⟨hcorrect, by omega⟩]
  · rw [if_neg hcorrect, if_neg (fun h => hcorrect h.1), selected_raiseThreshold,
      selected_trainWeights]

/-! ## Selections of lookups -/

/-- Where nothing is missing, the selection has one weight in each table. -/
theorem length_selected_of_fits {k : Corrector} {lookup : Lookup} (hfits : k.fits lookup = true) :
    (k.selected lookup.selection).length = k.history.size + 2 := by
  simp only [fits, Bool.and_eq_true, decide_eq_true_eq, Array.all_eq_true_iff_forall_mem]
    at hfits
  obtain ⟨⟨⟨hbias, hpath⟩, hsize⟩, hhistory⟩ := hfits
  have hall : ∀ w? ∈ k.at? lookup.selection, w?.isSome = true := by
    intro w? hw
    rcases List.mem_cons.1 hw with rfl | hw
    · simpa [Lookup.selection] using hbias
    rcases List.mem_append.1 hw with hw | hw
    · obtain ⟨⟨table, i⟩, hmem, rfl⟩ := List.mem_map.1 hw
      have hlt : i < table.size := hhistory (table, i) (Array.mem_toList_iff.1 hmem)
      simpa using hlt
    · rw [List.mem_singleton.1 hw]
      simpa [Lookup.selection] using hpath
  rw [selected, List.reduceOption_length_eq_iff.2 hall]
  simp [at?, historyWeights, Lookup.selection, hsize]

theorem mem_of_mem_selected {k : Corrector} {s : Selection} {w : Counter}
    (h : w ∈ k.selected s) :
    w ∈ k.bias ∨ (∃ table ∈ k.history, w ∈ table) ∨ w ∈ k.path := by
  rw [selected, List.reduceOption_mem_iff] at h
  rcases List.mem_cons.1 h with hbias | h
  · exact .inl (Array.mem_of_getElem? hbias.symm)
  rcases List.mem_append.1 h with hhistory | hpath
  · obtain ⟨⟨table, i⟩, hmem, hw⟩ := List.mem_map.1 hhistory
    have htable := (Array.of_mem_zip (Array.mem_toList_iff.1 hmem)).1
    exact .inr (.inl ⟨table, htable, Array.mem_of_getElem? hw⟩)
  · exact .inr (.inr (Array.mem_of_getElem? (List.mem_singleton.1 hpath).symm))

theorem Ranged.range_of_mem_selected {c : Config} {k : Corrector} (h : k.Ranged c) {s : Selection}
    {w : Counter} (hw : w ∈ k.selected s) : w.range = .signed c.weightBits := by
  rcases mem_of_mem_selected hw with hbias | ⟨table, htable, hhistory⟩ | hpath
  · exact h.bias w hbias
  · exact h.history table htable w hhistory
  · exact h.path w hpath

/-- A lookup selects a bias weight, a path weight, and one weight of each history table. -/
theorem Shaped.length_selected {k : Corrector} (h : k.Shaped) (pc : UInt64) (outcome : Direction)
    (confidence : Confidence) (primary : Direction) (path : PathHistory) :
    (k.selected (k.predict pc outcome confidence primary path).selection).length =
      k.config.historyLengths.length + 2 := by
  have hhistory : k.history.size = k.folds.size := by
    simpa using congrArg Array.size h.history_sizes
  rw [length_selected_of_fits (h.fits_predict pc outcome confidence primary path), hhistory,
    h.folds_size]

end Corrector

end BranchPrediction
