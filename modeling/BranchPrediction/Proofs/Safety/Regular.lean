import BranchPrediction.Proofs.Learning.Entries
import BranchPrediction.Proofs.Learning.Forgetting
import BranchPrediction.Proofs.Learning.Layout

/-!
# Counters keep their ranges and tables their sizes

A part is `Regular` if its tables have the sizes of its configuration and each of its counters has
the configured range and a value in it.  For the base table and the ladder this can be read off
their reset: a reset keeps ranges, shapes and sizes, so what it makes equal to a new table has those
of the new table.  For the loop predictor and the corrector, which a reset makes anew, every
operation is seen to keep the ranges.
-/

namespace BranchPrediction

/-- The counter has this range, and its value lies in it. -/
structure Counter.Within (range : Counter.Range) (c : Counter) : Prop where
  range_eq : c.range = range
  min_le : range.min ≤ c.value
  le_max : c.value ≤ range.max

theorem Counter.within {c : Counter} {range : Counter.Range} (h : c.range = range) :
    c.Within range := by
  subst h
  exact ⟨rfl, c.min_le, c.le_max⟩

/-- Counters whose resets are new ones of a range have that range. -/
theorem range_of_map_reset {counters : Array Counter} {n : Nat} {range : Counter.Range}
    (h : counters.map Counter.reset = Array.replicate n (.zero range)) :
    counters.size = n ∧ ∀ c ∈ counters, c.range = range := by
  constructor
  · simpa using congrArg Array.size h
  · intro c hc
    have hreset : c.reset ∈ Array.replicate n (Counter.zero range) :=
      h ▸ Array.mem_map_of_mem hc
    exact congrArg Counter.range (Array.mem_replicate.1 hreset).2

/-! ## The base table -/

/-- The table has the size of its configuration, and counters of the configured range. -/
structure Bimodal.Regular (c : Bimodal.Config) (t : Bimodal) : Prop where
  config_eq : t.config = c
  size_eq : t.counters.size = 2 ^ c.logSize
  counters : ∀ k ∈ t.counters, k.Within (.unsigned c.counterBits)

theorem Bimodal.regular_of_reset {c : Bimodal.Config} {t : Bimodal} (h : t.reset = zero c) :
    t.Regular c := by
  obtain ⟨hsize, hrange⟩ := range_of_map_reset (congrArg Bimodal.counters h)
  refine ⟨congrArg Bimodal.config h, ?_, fun k hk => Counter.within (hrange k hk)⟩
  rw [hsize, Config.size, Nat.one_shiftLeft]

/-! ## Ladders -/

namespace Ladder

variable {P : Type} [Payload P]

/-- The ladder has one table for each shape of its configuration, of the size that the shape says,
and counters of the configured ranges. -/
structure Regular (c : Config) (l : Ladder P) : Prop where
  config_eq : l.config = c
  size_eq : l.size = c.tables.length
  table : ∀ (i : Nat) (shape : TableShape), c.tables[i]? = some shape →
    ∃ t : TaggedTable P, l.tables[i]? = some t ∧ t.shape = shape ∧ t.bank = i ∧
      t.entries.size = 2 ^ shape.logSize
  confidence : l.Entrywise fun e =>
    e.confidence.Within (Payload.confidenceRange P c.confidenceBits)
  useful : l.Entrywise fun e => e.useful.Within (.unsigned c.usefulBits)
  useAlt_size : l.useAlt.size = c.useAltBuckets * 2
  useAlt : ∀ k ∈ l.useAlt, k.Within (.signed c.useAltBits)

/-- Where a reset makes a new ladder of a ladder, its entries had the ranges of new ones. -/
theorem entrywise_of_reset {c : Config} {l : Ladder P} (h : l.reset = blank c) :
    l.Entrywise fun e => e.confidence.range = Payload.confidenceRange P c.confidenceBits ∧
      e.useful.range = .unsigned c.usefulBits := by
  intro t ht e he
  have htable : t.reset ∈ (blank c : Ladder P).tables := by
    rw [← h]
    exact Array.mem_map_of_mem ht
  obtain ⟨bank, hbank, hreset⟩ := List.mem_mapIdx.1 (List.mem_toArray.1 htable)
  have hentry : e.invalidate ∈ t.reset.entries := Array.mem_map_of_mem he
  rw [← hreset] at hentry
  -- the entry invalidated is a new one, and to invalidate it kept its ranges
  obtain ⟨-, hblank⟩ := Array.mem_replicate.1 hentry
  exact ⟨congrArg (fun e : TaggedEntry P => e.confidence.range) hblank,
    congrArg (fun e : TaggedEntry P => e.useful.range) hblank⟩

theorem regular_of_reset {c : Config} {l : Ladder P} (h : l.reset = blank c) : l.Regular c := by
  have hentries := entrywise_of_reset h
  have hlayout : l.layout = c.layout := by
    rw [← layout_reset, h, layout_blank]
  obtain ⟨huseAlt, hrange⟩ := range_of_map_reset (congrArg Ladder.useAlt h)
  have hlength := congrArg List.length hlayout
  refine ⟨congrArg Ladder.config h, ?_, ?_, ?_, ?_, huseAlt, ?_⟩
  · change l.tables.size = _
    simpa [layout, Config.layout] using hlength
  · intro i shape hshape
    obtain ⟨t, ht, hplace⟩ := exists_table_of_layout hlayout hshape
    obtain ⟨rfl, hbank⟩ := Prod.mk.inj hplace
    refine ⟨t, ht, rfl, hbank, ?_⟩
    rw [t.entries_size, TableShape.size, Nat.one_shiftLeft]
  · exact hentries.mono fun e he => Counter.within he.1
  · exact hentries.mono fun e he => Counter.within he.2
  · exact fun k hk => Counter.within (hrange k hk)

end Ladder

/-! ## The loop predictor -/

namespace LoopPredictor

/-- The counters of an entry have the configured ranges. -/
def Entry.Ranged (c : Config) (e : Entry) : Prop :=
  e.confidence.range = .unsigned c.confidenceBits ∧ e.age.range = .unsigned c.ageBits

namespace Entry.Ranged

variable {c : Config} {e : Entry}

theorem release (h : e.Ranged c) : e.release.Ranged c :=
  h

theorem exit (h : e.Ranged c) (outcome : Direction) : (e.exit outcome).Ranged c := by
  have hconfirmed : e.confidence.increment.range = .unsigned c.confidenceBits :=
    (e.confidence.range_increment).trans h.1
  unfold Entry.exit
  simp only
  split
  · split
    · exact ⟨hconfirmed, h.2⟩
    · exact ⟨hconfirmed, h.2⟩
  · split
    · exact h
    · exact h

theorem advance (h : e.Ranged c) (bits : Nat) (outcome : Direction) :
    (e.advance bits outcome).Ranged c := by
  have hend : ∀ e' : Entry, e'.Ranged c →
      (if outcome ≠ e'.body then e'.exit outcome else e').Ranged c := by
    intro e' h'
    split
    · exact h'.exit outcome
    · exact h'
  refine hend _ ?_
  split
  · exact h
  · exact h

theorem train (h : e.Ranged c) (bits : Nat) (lookup : Lookup) (outcome primary : Direction) :
    (e.train bits lookup outcome primary).Ranged c := by
  unfold Entry.train
  split
  · exact h.release
  · refine Ranged.advance ?_ bits outcome
    split
    · exact ⟨h.1, (e.age.range_increment).trans h.2⟩
    · exact h

theorem allocated (c : Config) (tag : Nat) (outcome : Direction) :
    (Entry.allocated c tag outcome).Ranged c :=
  ⟨rfl, Counter.range_set _ _⟩

end Entry.Ranged

/-- The tables have the sizes of the configuration, and counters of the configured ranges. -/
structure Regular (c : Config) (p : LoopPredictor) : Prop where
  config_eq : p.config = c
  entries_size : p.entries.size = c.size
  trust_size : p.trust.size = c.trustSize
  confidence : ∀ e ∈ p.entries, e.confidence.Within (.unsigned c.confidenceBits)
  age : ∀ e ∈ p.entries, e.age.Within (.unsigned c.ageBits)
  trust : ∀ k ∈ p.trust, k.Within (.signed c.trustBits)

namespace Regular

variable {c : Config} {p : LoopPredictor}

theorem ranged (h : p.Regular c) : ∀ e ∈ p.entries, e.Ranged c :=
  fun e he => ⟨(h.confidence e he).range_eq, (h.age e he).range_eq⟩

theorem of_ranged (hconfig : p.config = c) (hentries : p.entries.size = c.size)
    (htrustSize : p.trust.size = c.trustSize) (hranged : ∀ e ∈ p.entries, e.Ranged c)
    (htrust : ∀ k ∈ p.trust, k.range = .signed c.trustBits) : p.Regular c where
  config_eq := hconfig
  entries_size := hentries
  trust_size := htrustSize
  confidence e he := Counter.within (hranged e he).1
  age e he := Counter.within (hranged e he).2
  trust k hk := Counter.within (htrust k hk)

theorem blank (c : Config) : (LoopPredictor.blank c).Regular c := by
  refine of_ranged rfl (by simp [LoopPredictor.blank]) (by simp [LoopPredictor.blank]) ?_ ?_
  · intro e he
    rw [(Array.mem_replicate.1 he).2]
    exact ⟨rfl, rfl⟩
  · intro k hk
    rw [(Array.mem_replicate.1 hk).2]
    exact Counter.range_set _ _

theorem modifyEntry (h : p.Regular c) (index : Nat) {f : Entry → Entry}
    (hf : ∀ e, e.Ranged c → (f e).Ranged c) : (p.modifyEntry index f).Regular c := by
  refine of_ranged h.config_eq (Array.size_modify.trans h.entries_size) h.trust_size ?_
    fun k hk => (h.trust k hk).range_eq
  refine forall_mem_modify h.ranged fun e he => ?_
  exact hf e (h.ranged e (Array.mem_of_getElem? he))

theorem modifyHeld (h : p.Regular c) (lookup : Lookup) {f : Entry → Entry}
    (hf : ∀ e, e.Ranged c → (f e).Ranged c) : (p.modifyHeld lookup f).Regular c := by
  unfold LoopPredictor.modifyHeld
  split
  · split
    · exact h.modifyEntry _ hf
    · exact h
  · exact h

theorem speculate (h : p.Regular c) (lookup : Lookup) (outcome : Direction) :
    (p.speculate lookup outcome).Regular c :=
  h.modifyHeld lookup fun _ he => he

theorem restore (h : p.Regular c) (lookup : Lookup) : (p.restore lookup).Regular c :=
  h.modifyHeld lookup fun _ he => he

theorem trainTrust (h : p.Regular c) (pc : UInt64) (isCorrect : Bool) :
    (p.trainTrust pc isCorrect).Regular c := by
  refine of_ranged h.config_eq h.entries_size (Array.size_modify.trans h.trust_size) h.ranged ?_
  change ∀ k ∈ p.trust.modify (p.trustIndex pc) (·.step isCorrect), _
  refine forall_mem_modify (fun k hk => (h.trust k hk).range_eq) fun k hk => ?_
  exact (k.range_step isCorrect).trans (h.trust k (Array.mem_of_getElem? hk)).range_eq

theorem allocateAmong (h : p.Regular c) (tag : Nat) (outcome : Direction) (indices : List Nat) :
    (LoopPredictor.allocateAmong tag outcome indices p).Regular c := by
  induction indices generalizing p with
  | nil => exact h
  | cons index rest ih =>
      rw [LoopPredictor.allocateAmong]
      split
      · exact ih h
      · split
        · refine h.modifyEntry index fun _ _ => ?_
          rw [h.config_eq]
          exact Entry.Ranged.allocated c tag outcome
        · exact ih (h.modifyEntry index fun e he => ⟨he.1, (e.age.range_decrement).trans he.2⟩)

theorem commit (h : p.Regular c) (lookup : Lookup) (outcome primary : Direction)
    (mispredicted mayAllocate : Bool) (way : Nat) :
    (p.commit lookup outcome primary mispredicted mayAllocate way).Regular c := by
  unfold LoopPredictor.commit
  split
  · exact h.modifyHeld lookup fun _ he => he.train _ lookup outcome primary
  · split
    · exact h.allocateAmong lookup.tag outcome _
    · exact h

theorem reset (h : p.Regular c) : p.reset.Regular c := by
  rw [LoopPredictor.reset, h.config_eq]
  exact blank c

end Regular

end LoopPredictor

/-! ## The corrector -/

namespace Corrector

/-- The weights and the counter of the threshold have the configured ranges. -/
structure Ranged (c : Config) (k : Corrector) : Prop where
  config_eq : k.config = c
  bias : ∀ w ∈ k.bias, w.range = .signed c.weightBits
  history : ∀ table ∈ k.history, ∀ w ∈ table, w.range = .signed c.weightBits
  path : ∀ w ∈ k.path, w.range = .signed c.weightBits
  threshold : k.thresholdCounter.range = .signed c.thresholdBits

theorem range_train {weights : Array Counter} {range : Counter.Range}
    (h : ∀ w ∈ weights, w.range = range) (i : Nat) (outcome : Direction) :
    ∀ w ∈ weights.modify i (·.train outcome), w.range = range := by
  refine forall_mem_modify h fun w hw => ?_
  exact (w.range_step outcome.isTaken).trans (h w (Array.mem_of_getElem? hw))

theorem range_trainHistory {history : Array (Array Counter)} {range : Counter.Range}
    (h : ∀ table ∈ history, ∀ w ∈ table, w.range = range) (outcome : Direction)
    (indices : Array Nat) :
    ∀ table ∈ trainHistory outcome indices history, ∀ w ∈ table, w.range = range := by
  unfold trainHistory
  generalize indices.toList.zipIdx = selected
  induction selected generalizing history with
  | nil => exact h
  | cons entry rest ih =>
      rw [List.foldl_cons]
      refine ih (forall_mem_modify h fun table htable => ?_)
      exact range_train (h table (Array.mem_of_getElem? htable)) entry.1 outcome

namespace Ranged

variable {c : Config} {k : Corrector}

theorem blank (c : Config) : (Corrector.blank c).Ranged c where
  config_eq := rfl
  bias w hw := by rw [(Array.mem_replicate.1 hw).2]; rfl
  history table htable w hw := by
    rw [(Array.mem_replicate.1 htable).2] at hw
    rw [(Array.mem_replicate.1 hw).2]
    rfl
  path w hw := by rw [(Array.mem_replicate.1 hw).2]; rfl
  threshold := rfl

theorem trainWeights (h : k.Ranged c) (lookup : Lookup) (outcome : Direction) :
    (k.trainWeights lookup outcome).Ranged c where
  config_eq := h.config_eq
  bias := range_train h.bias lookup.biasIndex outcome
  history := range_trainHistory h.history outcome lookup.historyIndices
  path := range_train h.path lookup.pathIndex outcome
  threshold := h.threshold

theorem raiseThreshold (h : k.Ranged c) : k.raiseThreshold.Ranged c := by
  have hcounter := (k.thresholdCounter.range_increment).trans h.threshold
  unfold Corrector.raiseThreshold
  simp only
  split
  · exact ⟨h.config_eq, h.bias, h.history, h.path, hcounter⟩
  · exact ⟨h.config_eq, h.bias, h.history, h.path, hcounter⟩

theorem lowerThreshold (h : k.Ranged c) : k.lowerThreshold.Ranged c := by
  have hcounter := (k.thresholdCounter.range_decrement).trans h.threshold
  unfold Corrector.lowerThreshold
  simp only
  split
  · exact ⟨h.config_eq, h.bias, h.history, h.path, hcounter⟩
  · exact ⟨h.config_eq, h.bias, h.history, h.path, hcounter⟩

theorem commit (h : k.Ranged c) (lookup : Lookup) (outcome : Direction) :
    (k.commit lookup outcome).Ranged c := by
  have htrain := h.trainWeights lookup outcome
  rw [commit_eq]
  split
  · split
    · exact htrain.lowerThreshold
    · exact h
  · exact htrain.raiseThreshold

theorem mapFolds (h : k.Ranged c) (g : FoldedHistory → FoldedHistory) :
    Corrector.Ranged c (BranchPrediction.mapFolds g k) :=
  ⟨h.config_eq, h.bias, h.history, h.path, h.threshold⟩

theorem reset (h : k.Ranged c) : k.reset.Ranged c := by
  rw [Corrector.reset, h.config_eq]
  exact blank c

end Ranged

/-- The tables have the sizes of the configuration, and the counters the configured ranges. -/
structure Regular (c : Config) (k : Corrector) : Prop where
  config_eq : k.config = c
  bias_size : k.bias.size = 2 ^ c.biasLogSize
  history_size : k.history.size = c.historyLengths.length
  row_size : ∀ table ∈ k.history, table.size = 2 ^ c.historyLogSize
  path_size : k.path.size = 2 ^ c.pathLogSize
  bias : ∀ w ∈ k.bias, w.Within (.signed c.weightBits)
  history : ∀ table ∈ k.history, ∀ w ∈ table, w.Within (.signed c.weightBits)
  path : ∀ w ∈ k.path, w.Within (.signed c.weightBits)
  threshold : k.thresholdCounter.Within (.signed c.thresholdBits)

/-- There is one fold for each history table. -/
theorem Shaped.folds_size {k : Corrector} (h : k.Shaped) :
    k.folds.size = k.config.historyLengths.length := by
  have hlength := congrArg List.length h.foldShapes_eq
  change ((k.folds.toList.flatMap fun f => [f]).map _).length = _ at hlength
  simpa [Config.foldShapes] using hlength

theorem Shaped.regular {c : Config} {k : Corrector} (hshaped : k.Shaped) (h : k.Ranged c) :
    k.Regular c := by
  have hfolds : k.folds.size = c.historyLengths.length := h.config_eq ▸ hshaped.folds_size
  have hhistory := hshaped.history_sizes
  rw [h.config_eq] at hhistory
  refine ⟨h.config_eq, h.config_eq ▸ hshaped.bias_size, ?_, ?_, h.config_eq ▸ hshaped.path_size,
    fun w hw => Counter.within (h.bias w hw), ?_, fun w hw => Counter.within (h.path w hw),
    Counter.within h.threshold⟩
  · rw [← hfolds]
    simpa using congrArg Array.size hhistory
  · intro table htable
    have hsize : table.size ∈ Array.replicate k.folds.size (2 ^ c.historyLogSize) :=
      hhistory ▸ Array.mem_map_of_mem htable
    exact (Array.mem_replicate.1 hsize).2
  · exact fun table htable w hw => Counter.within (h.history table htable w hw)

end Corrector

end BranchPrediction
