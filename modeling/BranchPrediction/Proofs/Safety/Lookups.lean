import BranchPrediction.Proofs.Pipeline.Slots
import BranchPrediction.Proofs.Safety.Layers
import BranchPrediction.Proofs.Safety.Regular

/-!
# Lookups stay in the range of the tables

What a lookup notes for later are indices, and a record may keep them across any number of other
operations.  They are bounded by the configuration alone, not by the state that the lookup saw: one
slot for each table, within the size and the tag width of its shape; matches among the tables, with
the alternate below the longest match; a base index, a loop entry and set, and weights that exist.
Hence they fit every regular predictor of the configuration.
-/

namespace BranchPrediction

/-! ## Ladders -/

namespace Ladder

/-- One slot is given for each table, in the range of its shape, and the matches are tables, the
alternate below the longest match. -/
structure Config.Selects (c : Config) (slots : Array Slot) (hit? alt? : Option Nat) : Prop where
  slots_size : slots.size = c.tables.length
  slot_lt : ∀ (i : Nat) (shape : TableShape), c.tables[i]? = some shape →
    ∃ slot, slots[i]? = some slot ∧ slot.index < 2 ^ shape.logSize ∧
      slot.tag < 2 ^ shape.tagBits
  hit_lt : ∀ hit, hit? = some hit → hit < c.tables.length
  alt_lt : ∀ alt, alt? = some alt → ∃ hit, hit? = some hit ∧ alt < hit

variable {P : Type} [Payload P] {c : Config} {l : Ladder P}

namespace Regular

theorem ready (h : l.Regular c) (hvalid : c.validate = .ok ()) : l.Ready := by
  obtain ⟨htables, hbuckets, hperiod⟩ := c.positive_of_validate hvalid
  obtain ⟨rfl, hsize, -, -, -, huseAlt, -⟩ := h
  exact ⟨hsize ▸ htables, hbuckets, huseAlt, hperiod⟩

/-- Searching at the slots of a branch selects tables of the configuration. -/
theorem selects (h : l.Regular c) (hvalid : c.validate = .ok ()) (pc : UInt64)
    (path : PathHistory) :
    c.Selects (l.slots pc path) (l.findMatches (l.slots pc path)).1
      (l.findMatches (l.slots pc path)).2 := by
  have hsize : (l.slots pc path).size = c.tables.length := Array.size_map.trans h.size_eq
  obtain ⟨hhit, -⟩ := l.hasBank_findMatches (l.slots pc path)
  refine ⟨hsize, ?_, ?_, ?_⟩
  · intro i shape hshape
    obtain ⟨t, ht, rfl, -, -⟩ := h.table i shape hshape
    obtain ⟨hlogSize, htagBits⟩ := c.widths_of_validate hvalid _ (List.mem_of_getElem? hshape)
    exact ⟨t.slot pc path, (l.entry?_slots ht pc path).2, t.slot_lt (by omega) (by omega) pc path⟩
  · intro hit hsome
    rw [hsome] at hhit
    exact h.size_eq ▸ of_decide_eq_true hhit
  · intro alt hsome
    rcases l.findMatches_cases (l.slots pc path) with ⟨hnone, -⟩ | ⟨hit, alt?, hmatches, -, halt⟩
    · rw [hnone] at hsome
      cases hsome
    · rw [hmatches] at hsome ⊢
      exact ⟨hit, rfl, (halt alt hsome).2⟩

theorem index_lt (h : l.Regular c) {slots : Array Slot} {hit? alt? : Option Nat}
    (hselects : c.Selects slots hit? alt?) {bank : Nat} {t : TaggedTable P} {slot : Slot}
    (ht : l.tables[bank]? = some t) (hslot : slots[bank]? = some slot) :
    slot.index < t.entries.size := by
  obtain ⟨hbank, -⟩ := Array.getElem?_eq_some_iff.1 ht
  obtain ⟨t', ht', -, -, hsize⟩ :=
    h.table bank _ (List.getElem?_eq_getElem (h.size_eq ▸ hbank))
  obtain ⟨slot', hslot', hindex, -⟩ :=
    hselects.slot_lt bank _ (List.getElem?_eq_getElem (h.size_eq ▸ hbank))
  obtain rfl := Option.some.inj (ht.symm.trans ht')
  obtain rfl := Option.some.inj (hslot.symm.trans hslot')
  exact hsize ▸ hindex

/-- What is selected of the configuration fits the ladder. -/
theorem fits (h : l.Regular c) {slots : Array Slot} {hit? alt? : Option Nat}
    (hselects : c.Selects slots hit? alt?) :
    l.fits slots = true ∧ l.hasBank hit? = true ∧ l.hasBank alt? = true := by
  have hhit : ∀ hit, hit? = some hit → hit < l.size := by
    intro hit hsome
    exact h.size_eq ▸ hselects.hit_lt hit hsome
  refine ⟨decide_eq_true (hselects.slots_size.trans h.size_eq.symm), ?_, ?_⟩
  · cases hit? with
    | none => rfl
    | some hit => exact decide_eq_true (hhit hit rfl)
  · cases alt? with
    | none => rfl
    | some alt =>
        -- a table, since it is below the longest match
        obtain ⟨hit, hsome, hlt⟩ := hselects.alt_lt alt rfl
        exact decide_eq_true (hlt.trans (hhit hit hsome))

end Regular

end Ladder

/-! ## TAGE -/

namespace Tage

/-- The prediction refers to the tables of the configuration. -/
structure Prediction.InRange (base : Bimodal.Config) (c : Ladder.Config) (p : Prediction) :
    Prop where
  selects : c.Selects p.slots p.hit? p.alt?
  baseIndex_lt : p.baseIndex < 2 ^ base.logSize

/-- What a lookup notes of the tables. -/
theorem predict_selection (t : Tage) (pc : UInt64) (path : PathHistory) (conditional : Bool) :
    let slots := t.ladder.slots pc path
    let p := t.predict pc path conditional
    p.slots = slots ∧ p.hit? = (t.ladder.findMatches slots).1 ∧
      p.alt? = (t.ladder.findMatches slots).2 ∧ p.baseIndex = t.base.index pc := by
  unfold predict
  simp only
  split
  · exact ⟨rfl, rfl, rfl, rfl⟩
  · split
    · exact ⟨rfl, rfl, rfl, rfl⟩
    · split
      · exact ⟨rfl, rfl, rfl, rfl⟩
      · exact ⟨rfl, rfl, rfl, rfl⟩

theorem inRange_predict {t : Tage} {base : Bimodal.Config} {c : Ladder.Config}
    (hbase : t.base.Regular base) (hladder : t.ladder.Regular c)
    (hbaseValid : base.validate = .ok ()) (hvalid : c.validate = .ok ()) (pc : UInt64)
    (path : PathHistory) (conditional : Bool) :
    (t.predict pc path conditional).InRange base c := by
  obtain ⟨hslots, hhit, halt, hindex⟩ := t.predict_selection pc path conditional
  obtain ⟨hlogSize, -⟩ := base.widths_of_validate hbaseValid
  constructor
  · rw [hslots, hhit, halt]
    exact hladder.selects hvalid pc path
  · rw [hindex, Bimodal.index, hbase.config_eq]
    exact toNat_and_lowMask_lt _ (by omega)

end Tage

/-! ## ITTAGE -/

theorem Ittage.find_selection (p : Ittage) (pc : UInt64) (isConditional : Bool) :
    let slots := p.ladder.slots pc p.history.path
    let l := p.find pc isConditional
    l.slots = slots ∧ l.hit? = (p.ladder.findMatches slots).1 ∧
      l.alt? = (p.ladder.findMatches slots).2 := by
  unfold find
  simp only
  split
  · exact ⟨rfl, rfl, rfl⟩
  · split
    · exact ⟨rfl, rfl, rfl⟩
    · split
      · exact ⟨rfl, rfl, rfl⟩
      · exact ⟨rfl, rfl, rfl⟩

/-! ## The loop predictor -/

theorem LoopPredictor.Regular.ready {c : LoopPredictor.Config} {p : LoopPredictor}
    (h : p.Regular c) (hvalid : c.validate = .ok ()) : p.Ready := by
  obtain ⟨rfl, hentries, htrust, -, -, -⟩ := h
  exact ⟨hvalid, hentries, htrust⟩

theorem LoopPredictor.Regular.fits {c : LoopPredictor.Config} {p : LoopPredictor}
    (h : p.Regular c) {lookup : LoopPredictor.Lookup} (hselects : Selects c lookup) :
    p.fits lookup = true := by
  rw [LoopPredictor.fits, Option.all_eq_true]
  exact fun index hindex => decide_eq_true (h.entries_size ▸ hselects.hit_lt index hindex)

/-! ## The corrector -/

namespace Corrector

/-- The lookup selects a weight of each table of the configuration. -/
structure Selects (c : Config) (lookup : Lookup) : Prop where
  biasIndex_lt : lookup.biasIndex < 2 ^ c.biasLogSize
  historyIndices_size : lookup.historyIndices.size = c.historyLengths.length
  historyIndex_lt : ∀ i ∈ lookup.historyIndices, i < 2 ^ c.historyLogSize
  pathIndex_lt : lookup.pathIndex < 2 ^ c.pathLogSize

namespace Regular

variable {c : Config} {k : Corrector}

theorem fits (h : k.Regular c) {lookup : Lookup} (hselects : Selects c lookup) :
    k.fits lookup = true := by
  simp only [Corrector.fits, Bool.and_eq_true, decide_eq_true_eq]
  refine ⟨⟨⟨?_, ?_⟩, ?_⟩, ?_⟩
  · rw [h.bias_size]
    exact hselects.biasIndex_lt
  · rw [h.path_size]
    exact hselects.pathIndex_lt
  · rw [hselects.historyIndices_size, h.history_size]
  · rw [Array.all_eq_true]
    intro i hi
    rw [Array.size_zip] at hi
    simp only [Array.getElem_zip, decide_eq_true_eq]
    rw [h.row_size _ (Array.getElem_mem _)]
    exact hselects.historyIndex_lt _ (Array.getElem_mem _)

theorem selects_predict (h : k.Regular c) (hshaped : k.Shaped) (pc : UInt64)
    (outcome : Direction) (confidence : Confidence) (primary : Direction) (path : PathHistory) :
    Selects c (k.predict pc outcome confidence primary path) := by
  have hfolds := hshaped.folds_size
  obtain ⟨-, hbias, hhistory, hpath, -⟩ := hshaped
  rw [h.config_eq] at hbias hhistory hpath hfolds
  refine ⟨?_, ?_, ?_, ?_⟩
  · rw [predict, biasIndexOf, h.config_eq]
    exact toNat_and_lowMask_lt _ hbias
  · exact Array.size_map.trans hfolds
  · intro i hi
    obtain ⟨f, -, rfl⟩ := Array.mem_map.1 hi
    rw [h.config_eq]
    exact toNat_and_lowMask_lt _ hhistory
  · rw [predict, h.config_eq]
    exact toNat_and_lowMask_lt _ hpath

end Regular

end Corrector

end BranchPrediction
