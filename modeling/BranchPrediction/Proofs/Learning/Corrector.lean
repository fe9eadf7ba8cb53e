import BranchPrediction.Corrector
import BranchPrediction.LoopPredictor
import BranchPrediction.Proofs.Learning.Tage

/-!
# Learning beside the folds: the corrector and the loop predictor

The corrector keeps one fold for each of its history tables, and its training is blind to them
(`Corrector.foldBlind_commit`).  Its lookups fit its tables as long as these have the sizes that
the configuration gives them (`Corrector.Shaped`), which no operation changes.

The loop predictor keeps no fold.  What it has of speculative state is the iteration count of each
entry, and `LoopPredictor.restore_speculate` says how a lookup takes an advance back: the count at
the time of the lookup is written over whatever the advance made of it.
-/

namespace BranchPrediction

/-- A masked word is an index of a table of that logarithmic size. -/
theorem toNat_and_lowMask_lt (x : UInt64) {width : Nat} (h : width < 64) :
    (x &&& lowMask width).toNat < 2 ^ width := by
  apply toNat_lt_of_wordBit
  intro i hi
  have hout : ¬i < width := by omega
  rw [wordBit_and, wordBit_lowMask h]
  simp [hout]

namespace Corrector

instance : FoldFamily Corrector where
  folds c := FoldFamily.folds c.folds
  mapFolds g c := { c with folds := mapFolds g c.folds }
  folds_mapFolds g c := FoldFamily.folds_mapFolds g c.folds
  mapFolds_mapFolds g k c := by rw [FoldFamily.mapFolds_mapFolds]
  mapFolds_eq_self {g c} h := by
    have hself : mapFolds g c.folds = c.folds := FoldFamily.mapFolds_eq_self h
    rw [hself]
  pushed_eq r c := by
    rcases c with ⟨config, bias, history, path, folds, threshold, thresholdCounter⟩
    exact congrArg (Corrector.mk config bias history path · threshold thresholdCounter)
      (FoldFamily.pushed_eq r folds)
  popping_eq r c := by
    rcases c with ⟨config, bias, history, path, folds, threshold, thresholdCounter⟩
    exact congrArg (Corrector.mk config bias history path · threshold thresholdCounter)
      (FoldFamily.popping_eq r folds)

/-! ## Training -/

theorem foldBlind_trainWeights (lookup : Lookup) (outcome : Direction) :
    FoldBlind (fun c : Corrector => c.trainWeights lookup outcome) :=
  ⟨fun _ => rfl, fun _ _ => rfl⟩

theorem foldBlind_raiseThreshold : FoldBlind raiseThreshold where
  folds_eq c := by
    unfold raiseThreshold
    simp only
    split
    · rfl
    · rfl
  mapFolds_eq g c := by
    simp only [raiseThreshold, mapFolds]
    split
    · rfl
    · rfl

theorem foldBlind_lowerThreshold : FoldBlind lowerThreshold where
  folds_eq c := by
    unfold lowerThreshold
    simp only
    split
    · rfl
    · rfl
  mapFolds_eq g c := by
    simp only [lowerThreshold, mapFolds]
    split
    · rfl
    · rfl

/-- A commit in the two cases: a wrong sum trains and raises the threshold, a right one trains and
lowers it if it was small. -/
theorem commit_eq (c : Corrector) (lookup : Lookup) (outcome : Direction) :
    c.commit lookup outcome =
      if lookup.outcome = outcome then
        if (lookup.sum.natAbs : Int) < c.threshold then
          (c.trainWeights lookup outcome).lowerThreshold
        else c
      else (c.trainWeights lookup outcome).raiseThreshold := by
  unfold commit
  by_cases hcorrect : lookup.outcome = outcome
  · by_cases hsmall : (lookup.sum.natAbs : Int) < c.threshold
    · simp only [hcorrect, hsmall, decide_true, Bool.not_true, Bool.or_true, Bool.false_eq_true,
        if_true, if_false]
    · simp only [hcorrect, hsmall, decide_true, decide_false, Bool.not_true, Bool.or_false,
        Bool.false_eq_true, if_true, if_false]
  · simp only [hcorrect, decide_false, Bool.not_false, Bool.true_or, if_true, if_false]

theorem config_commit (c : Corrector) (lookup : Lookup) (outcome : Direction) :
    (c.commit lookup outcome).config = c.config := by
  have hraise : ∀ k : Corrector, k.raiseThreshold.config = k.config := by
    intro k
    simp only [raiseThreshold]
    split
    · rfl
    · rfl
  have hlower : ∀ k : Corrector, k.lowerThreshold.config = k.config := by
    intro k
    simp only [lowerThreshold]
    split
    · rfl
    · rfl
  rw [commit_eq]
  split
  · split
    · exact hlower _
    · rfl
  · exact hraise _

theorem foldBlind_commit (lookup : Lookup) (outcome : Direction) :
    FoldBlind (fun c : Corrector => c.commit lookup outcome) := by
  have htrain := foldBlind_trainWeights lookup outcome
  simp only [commit_eq]
  refine .cond (fun _ _ => Iff.rfl) ?_ (htrain.comp foldBlind_raiseThreshold)
  exact .cond (fun _ _ => Iff.rfl) (htrain.comp foldBlind_lowerThreshold) .id

/-! ## The sizes of the tables -/

/-- Width and window of the fold of each history table. -/
def Config.foldShapes (c : Config) : List (Nat × Nat) :=
  c.historyLengths.map fun length => (c.historyLogSize, length)

/-- The tables have the sizes of the configuration, with one history table for each fold. -/
structure Shaped (c : Corrector) : Prop where
  foldShapes_eq : foldShapes c = c.config.foldShapes
  biasLogSize_lt : c.config.biasLogSize < 64
  historyLogSize_lt : c.config.historyLogSize < 64
  pathLogSize_lt : c.config.pathLogSize < 64
  bias_size : c.bias.size = 2 ^ c.config.biasLogSize
  history_sizes : c.history.map Array.size =
    Array.replicate c.folds.size (2 ^ c.config.historyLogSize)
  path_size : c.path.size = 2 ^ c.config.pathLogSize

theorem map_size_trainHistory (outcome : Direction) (indices : Array Nat)
    (history : Array (Array Counter)) :
    (trainHistory outcome indices history).map Array.size = history.map Array.size := by
  unfold trainHistory
  generalize indices.toList.zipIdx = selected
  induction selected generalizing history with
  | nil => rfl
  | cons entry rest ih =>
      rw [List.foldl_cons, ih]
      apply Array.ext
      · simp
      · intro i hleft hright
        simp only [Array.getElem_map, Array.getElem_modify]
        split
        · simp
        · rfl

/-- Which lookups fit, told from the sizes of the tables only. -/
theorem fits_eq (c : Corrector) (lookup : Lookup) :
    c.fits lookup =
      (decide (lookup.biasIndex < c.bias.size) && decide (lookup.pathIndex < c.path.size) &&
        decide (lookup.historyIndices.size = (c.history.map Array.size).size) &&
        ((c.history.map Array.size).zip lookup.historyIndices).all fun row =>
          decide (row.2 < row.1)) := by
  rw [Array.zip_map_left, Array.all_map, Array.size_map]
  rfl

theorem fits_congr {c d : Corrector} (hbias : d.bias.size = c.bias.size)
    (hhistory : d.history.map Array.size = c.history.map Array.size)
    (hpath : d.path.size = c.path.size) (lookup : Lookup) : d.fits lookup = c.fits lookup := by
  rw [fits_eq, fits_eq, hbias, hhistory, hpath]

/-- A lookup keeps fitting the tables while they learn from others. -/
theorem fits_commit (c : Corrector) (lookup : Lookup) (outcome : Direction) (other : Lookup) :
    (c.commit lookup outcome).fits other = c.fits other := by
  have htrain : (c.trainWeights lookup outcome).fits other = c.fits other :=
    fits_congr Array.size_modify (map_size_trainHistory outcome lookup.historyIndices c.history)
      Array.size_modify other
  have hraise : ∀ k : Corrector, k.raiseThreshold.fits other = k.fits other := by
    intro k
    simp only [raiseThreshold]
    split
    · rfl
    · rfl
  have hlower : ∀ k : Corrector, k.lowerThreshold.fits other = k.fits other := by
    intro k
    simp only [lowerThreshold]
    split
    · rfl
    · rfl
  rw [commit_eq]
  split
  · split
    · exact (hlower _).trans htrain
    · rfl
  · exact (hraise _).trans htrain

theorem Shaped.trainWeights {c : Corrector} (h : c.Shaped) (lookup : Lookup)
    (outcome : Direction) : (c.trainWeights lookup outcome).Shaped where
  foldShapes_eq := h.foldShapes_eq
  biasLogSize_lt := h.biasLogSize_lt
  historyLogSize_lt := h.historyLogSize_lt
  pathLogSize_lt := h.pathLogSize_lt
  bias_size := (Array.size_modify ..).trans h.bias_size
  history_sizes := (map_size_trainHistory outcome lookup.historyIndices c.history).trans
    h.history_sizes
  path_size := (Array.size_modify ..).trans h.path_size

theorem Shaped.raiseThreshold {c : Corrector} (h : c.Shaped) : c.raiseThreshold.Shaped := by
  unfold Corrector.raiseThreshold
  simp only
  split
  · exact ⟨h.1, h.2, h.3, h.4, h.5, h.6, h.7⟩
  · exact ⟨h.1, h.2, h.3, h.4, h.5, h.6, h.7⟩

theorem Shaped.lowerThreshold {c : Corrector} (h : c.Shaped) : c.lowerThreshold.Shaped := by
  unfold Corrector.lowerThreshold
  simp only
  split
  · exact ⟨h.1, h.2, h.3, h.4, h.5, h.6, h.7⟩
  · exact ⟨h.1, h.2, h.3, h.4, h.5, h.6, h.7⟩

theorem Shaped.commit {c : Corrector} (h : c.Shaped) (lookup : Lookup) (outcome : Direction) :
    (c.commit lookup outcome).Shaped := by
  have htrain := h.trainWeights lookup outcome
  rw [commit_eq]
  split
  · split
    · exact htrain.lowerThreshold
    · exact h
  · exact htrain.raiseThreshold

theorem Shaped.mapFolds {c : Corrector} (h : c.Shaped) {g : FoldedHistory → FoldedHistory}
    (hg : KeepsShape g) : (mapFolds g c).Shaped where
  foldShapes_eq := (foldShapes_mapFolds hg c).trans h.foldShapes_eq
  biasLogSize_lt := h.biasLogSize_lt
  historyLogSize_lt := h.historyLogSize_lt
  pathLogSize_lt := h.pathLogSize_lt
  bias_size := h.bias_size
  history_sizes := by
    have hsize : (FoldFamily.mapFolds g c).folds.size = c.folds.size := Array.size_map
    rw [hsize]
    exact h.history_sizes
  path_size := h.path_size

theorem folds_blank (config : Config) :
    FoldFamily.folds (blank config) =
      config.foldShapes.map fun s => FoldedHistory.zero s.1 s.2 := by
  change (config.historyLengths.map
    (FoldedHistory.zero config.historyLogSize)).toArray.toList.flatMap (fun f => [f]) = _
  rw [Config.foldShapes, List.map_map, List.flatMap_singleton']
  rfl

theorem foldShapes_blank (config : Config) :
    BranchPrediction.foldShapes (blank config) = config.foldShapes := by
  rw [BranchPrediction.foldShapes, folds_blank, List.map_map]
  exact List.map_id _

theorem shaped_blank {config : Config} (hbias : config.biasLogSize < 64)
    (hhistory : config.historyLogSize < 64) (hpath : config.pathLogSize < 64) :
    (blank config).Shaped where
  foldShapes_eq := foldShapes_blank config
  biasLogSize_lt := hbias
  historyLogSize_lt := hhistory
  pathLogSize_lt := hpath
  bias_size := by simp [blank, Nat.one_shiftLeft]
  history_sizes := by simp [blank, Nat.one_shiftLeft]
  path_size := by simp [blank, Nat.one_shiftLeft]

theorem Shaped.fits_predict {c : Corrector} (h : c.Shaped) (pc : UInt64) (outcome : Direction)
    (confidence : Confidence) (primary : Direction) (path : PathHistory) :
    c.fits (c.predict pc outcome confidence primary path) = true := by
  have hsize : c.history.size = c.folds.size := by
    simpa using congrArg Array.size h.history_sizes
  have hrow : ∀ (i : Nat) (hi : i < c.history.size),
      c.history[i].size = 2 ^ c.config.historyLogSize := by
    intro i hi
    have hmap : (c.history.map Array.size)[i]? = some (2 ^ c.config.historyLogSize) := by
      rw [h.history_sizes, Array.getElem?_replicate, if_pos (by omega)]
    simpa [hi] using hmap
  simp only [fits, predict, biasIndexOf, Bool.and_eq_true, decide_eq_true_eq]
  refine ⟨⟨⟨?_, ?_⟩, ?_⟩, ?_⟩
  · rw [h.bias_size]
    exact toNat_and_lowMask_lt _ h.biasLogSize_lt
  · rw [h.path_size]
    exact toNat_and_lowMask_lt _ h.pathLogSize_lt
  · rw [Array.size_map, hsize]
  · rw [Array.all_eq_true]
    intro i hi
    rw [Array.size_zip] at hi
    simp only [Array.getElem_zip, Array.getElem_map, decide_eq_true_eq]
    rw [hrow i (by omega)]
    exact toNat_and_lowMask_lt _ h.historyLogSize_lt

end Corrector

namespace LoopPredictor

/-! ## Speculative iteration counts -/

theorem fits_lookup (p : LoopPredictor) (pc : UInt64) : p.fits (p.lookup pc) = true := by
  unfold lookup
  simp only
  cases hfind : (p.waysOf (p.setOf pc)).find? (p.holds (p.tagOf pc)) with
  | none => rfl
  | some index =>
      simp only [Option.bind_some]
      cases hentry : p.entries[index]? with
      | none => rfl
      | some e =>
          have hlt : index < p.entries.size := (Array.getElem?_eq_some_iff.1 hentry).1
          simpa [fits] using hlt

theorem fits_speculate (p : LoopPredictor) (lookup : Lookup) (outcome : Direction)
    (other : Lookup) : (p.speculate lookup outcome).fits other = p.fits other := by
  have hsize : (p.speculate lookup outcome).entries.size = p.entries.size := by
    rcases p with ⟨config, entries, trust⟩
    unfold speculate modifyHeld
    split
    · split
      · simp [modifyEntry]
      · rfl
    · rfl
  simp only [fits, hsize]

/-- A lookup that restores the predictor it was made from to itself. -/
theorem restore_lookup (p : LoopPredictor) (pc : UInt64) : p.restore (p.lookup pc) = p := by
  rcases p with ⟨config, entries, trust⟩
  unfold lookup
  simp only
  generalize (LoopPredictor.waysOf _ _).find? _ = index?
  cases index? with
  | none => rfl
  | some index =>
      simp only [Option.bind_some]
      cases hentry : entries[index]? with
      | none => rfl
      | some e =>
          have hself : entries.modify index
              (fun e' => { e' with specIteration := e.specIteration }) = entries := by
            apply Array.ext
            · simp
            · intro i hleft hright
              rw [Array.getElem_modify]
              split
              · next hi =>
                  subst hi
                  have := (Array.getElem?_eq_some_iff.1 hentry).2
                  rw [this]
              · rfl
          simp only [restore, modifyHeld, modifyEntry, hself]
          split
          · rfl
          · rfl

theorem modify_modify (entries : Array Entry) (index : Nat) (f g : Entry → Entry) :
    (entries.modify index f).modify index g = entries.modify index fun e => g (f e) := by
  apply Array.ext
  · simp
  · intro i hleft hright
    simp only [Array.getElem_modify]
    split
    · rfl
    · rfl

/-- Restoring writes over an advance: it leaves what it would have made of the predictor before. -/
theorem restore_speculate (p : LoopPredictor) (lookup : Lookup) (outcome : Direction) :
    (p.speculate lookup outcome).restore lookup = p.restore lookup := by
  rcases p with ⟨config, entries, trust⟩
  rcases lookup with ⟨hit?, tag, set, isValid, prediction, savedIteration⟩
  cases hit? with
  | none => rfl
  | some index =>
      cases hentry : entries[index]? with
      | none => simp [speculate, restore, modifyHeld, holds, hentry]
      | some e =>
          by_cases htag : e.tag? = some tag
          · have hmodify : ∀ f : Entry → Entry, (entries.modify index f)[index]? = some (f e) := by
              intro f
              simp [Array.getElem?_modify, hentry]
            simp [speculate, restore, modifyHeld, modifyEntry, holds, hentry, htag, hmodify,
              Entry.speculate, modify_modify]
          · simp [speculate, restore, modifyHeld, holds, hentry, htag]

end LoopPredictor

end BranchPrediction
