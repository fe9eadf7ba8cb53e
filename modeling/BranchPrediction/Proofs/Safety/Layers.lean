import BranchPrediction.Proofs.Learning.Loops
import BranchPrediction.Proofs.Safety.Access
import BranchPrediction.Proofs.Validation

/-!
# Checked access beside the tagged tables

The loop predictor reads all ways of a set, and allocates in a set that a record names; it makes the
counters of a new entry anew.  The corrector reads and trains the weights that a lookup selects.
With tables of the configured sizes, and lookups that fit, no check fails.

The number of ways is not bounded by the checks of a configuration, so sizes and indices that are
multiples of it are computed with words here, which wrap around.  They do not where there is room
for the table.
-/

namespace BranchPrediction

namespace LoopPredictor

/-! ## Checked operations of the loop predictor -/

/-- The predictor that has learned nothing, if its counters exist and its table has room. -/
def checkedBlank (config : Config) : Option LoopPredictor := do
  guard (Counter.Range.supports config.confidenceBits)
  guard (Counter.Range.supports config.ageBits)
  guard (Counter.Range.supports config.trustBits)
  let size := config.size % UInt64.size
  guard (hasRoomFor size)
  return { blank config with entries := Array.replicate size (.blank config) }

/-- As `waysOf`, with words. -/
def wordWaysOf (p : LoopPredictor) (set : Nat) : List Nat :=
  let first := set * p.config.ways % UInt64.size
  List.range' first ((set + 1) * p.config.ways % UInt64.size - first)

/-- As `scan`, with words. -/
def wordScan (p : LoopPredictor) (set way : Nat) : List Nat :=
  (p.scan set way).map (· % UInt64.size)

def checkedLookup (p : LoopPredictor) (pc : UInt64) : Option Lookup := do
  guard ((p.wordWaysOf (p.setOf pc)).all (· < p.entries.size))
  return p.lookup pc

def checkedTrust (p : LoopPredictor) (pc : UInt64) : Option Counter :=
  p.trust[p.trustIndex pc]?

/-- Look up a branch, and whether the prediction can be trusted if there is one. -/
def checkedConsult (p : LoopPredictor) (pc : UInt64) : Option Lookup := do
  let lookup ← p.checkedLookup pc
  guard (!lookup.isValid || (p.checkedTrust pc).isSome)
  return lookup

def checkedTrainTrust (p : LoopPredictor) (pc : UInt64) (isCorrect : Bool) :
    Option LoopPredictor := do
  let _ ← p.checkedTrust pc
  return p.trainTrust pc isCorrect

/-- Change the entry that held the branch at its lookup, if it still does. -/
def checkedModifyHeld (p : LoopPredictor) (lookup : Lookup) (f : Entry → Entry) :
    Option LoopPredictor :=
  match lookup.hit? with
  | some index => do
    let e ← p.entries[index]?
    return if e.tag? = some lookup.tag then p.modifyEntry index f else p
  | none => some p

def checkedSpeculate (p : LoopPredictor) (lookup : Lookup) (outcome : Direction) :
    Option LoopPredictor :=
  p.checkedModifyHeld lookup (·.speculate p.config.iterationBits outcome)

/-- Undo `checkedSpeculate`. -/
def checkedRestore (p : LoopPredictor) (lookup : Lookup) : Option LoopPredictor :=
  p.checkedModifyHeld lookup fun e => { e with specIteration := lookup.savedIteration }

/-- Replace the first entry of age 0. -/
def checkedAllocateAmong (tag : Nat) (outcome : Direction) :
    List Nat → LoopPredictor → Option LoopPredictor
  | [], p => some p
  | index :: rest, p => do
    let e ← p.entries[index]?
    if e.age.value = 0 then
      guard (Counter.Range.supports p.config.confidenceBits)
      guard (Counter.Range.supports p.config.ageBits)
      return p.modifyEntry index fun _ => Entry.allocated p.config tag outcome
    else
      checkedAllocateAmong tag outcome rest
        (p.modifyEntry index fun e => { e with age := e.age.decrement })

def checkedCommit (p : LoopPredictor) (lookup : Lookup) (outcome primary : Direction)
    (mispredicted mayAllocate : Bool) (way : Nat) : Option LoopPredictor :=
  if lookup.hit?.isSome then
    p.checkedModifyHeld lookup (·.train p.config.iterationBits lookup outcome primary)
  else if mispredicted && mayAllocate then
    checkedAllocateAmong lookup.tag outcome (p.wordScan lookup.set way) p
  else some p

/-! ## Words that do not wrap around -/

theorem Config.mul_ways_le {c : Config} {set : Nat} (hset : set < 1 <<< c.logSets) :
    (set + 1) * c.ways ≤ c.size :=
  Nat.mul_le_mul_right _ hset

section Room

variable {p : LoopPredictor} (hroom : p.config.hasRoom = true) {set : Nat}
  (hset : set < 1 <<< p.config.logSets)

include hroom hset

theorem wordWaysOf_eq : p.wordWaysOf set = p.waysOf set := by
  have hsize : p.config.size < UInt64.size := lt_of_hasRoomFor hroom
  have hend := Config.mul_ways_le hset
  have hstart : set * p.config.ways ≤ (set + 1) * p.config.ways :=
    Nat.mul_le_mul_right _ (Nat.le_succ set)
  rw [wordWaysOf, Nat.mod_eq_of_lt (by omega), Nat.mod_eq_of_lt (by omega), Nat.succ_mul,
    Nat.add_sub_cancel_left, waysOf]

theorem wordScan_eq (hways : 0 < p.config.ways) (way : Nat) :
    p.wordScan set way = p.scan set way := by
  have hsize : p.config.size < UInt64.size := lt_of_hasRoomFor hroom
  have hend := Config.mul_ways_le hset
  rw [Nat.succ_mul] at hend
  rw [wordScan, scan, List.map_map]
  refine List.map_congr_left fun i _ => Nat.mod_eq_of_lt ?_
  have hway := Nat.mod_lt (way + i) hways
  change set * p.config.ways + (way + i) % p.config.ways < UInt64.size
  omega

end Room

/-! ## No check fails -/

theorem checkedBlank_eq {c : Config} (h : c.validate = .ok ()) (hroom : c.hasRoom = true) :
    checkedBlank c = some (blank c) := by
  obtain ⟨hconfidence, hage, htrust⟩ := c.counters_of_validate h
  have hsize : c.size % UInt64.size = c.size := Nat.mod_eq_of_lt (lt_of_hasRoomFor hroom)
  have hfits : hasRoomFor c.size = true := hroom
  simp [checkedBlank, hconfidence, hage, htrust, hsize, hfits, guard, blank]

/-- The tables have the sizes of a valid configuration. -/
structure Ready (p : LoopPredictor) : Prop where
  valid : p.config.validate = .ok ()
  entries_size : p.entries.size = p.config.size
  trust_size : p.trust.size = p.config.trustSize

/-- The lookup is of an entry that exists, or else of a set that exists. -/
structure Selects (c : Config) (lookup : Lookup) : Prop where
  hit_lt : ∀ index, lookup.hit? = some index → index < c.size
  set_lt : lookup.set < 1 <<< c.logSets
  tag_lt : lookup.tag < 2 ^ c.tagBits

/-- A lookup that was not made is of no entry, and its set exists. -/
theorem selects_default (c : Config) : Selects c {} where
  hit_lt _ hindex := by cases hindex
  set_lt := by
    rw [Nat.one_shiftLeft]
    exact Nat.two_pow_pos _
  tag_lt := Nat.two_pow_pos _

namespace Ready

variable {p : LoopPredictor} (h : p.Ready)

include h

theorem index_lt {set way : Nat} (hset : set < 1 <<< p.config.logSets)
    (hway : way < p.config.ways) : set * p.config.ways + way < p.entries.size := by
  rw [h.entries_size]
  calc set * p.config.ways + way < set * p.config.ways + p.config.ways := by omega
    _ = (set + 1) * p.config.ways := (Nat.succ_mul ..).symm
    _ ≤ p.config.size := Config.mul_ways_le hset

theorem setOf_lt (pc : UInt64) : p.setOf pc < 1 <<< p.config.logSets := by
  obtain ⟨-, hsets, -, -⟩ := p.config.sizes_of_validate h.valid
  rw [Nat.one_shiftLeft]
  exact toNat_and_lowMask_lt _ (by omega)

theorem selects_lookup (pc : UInt64) : Selects p.config (p.lookup pc) := by
  obtain ⟨-, -, -, htag⟩ := p.config.sizes_of_validate h.valid
  have hset := h.setOf_lt pc
  have htag : p.tagOf pc < 2 ^ p.config.tagBits := toNat_and_lowMask_lt _ (by omega)
  have hfits := p.fits_lookup pc
  have hhit : ∀ index, (p.lookup pc).hit? = some index → index < p.config.size := by
    intro index hindex
    rw [fits, hindex, h.entries_size] at hfits
    exact of_decide_eq_true hfits
  refine ⟨hhit, ?_, ?_⟩
  · unfold lookup
    simp only
    split
    · exact hset
    · exact hset
  · unfold lookup
    simp only
    split
    · exact htag
    · exact htag

theorem checkedLookup_eq (hroom : p.config.hasRoom = true) (pc : UInt64) :
    p.checkedLookup pc = some (p.lookup pc) := by
  have hall : (p.wordWaysOf (p.setOf pc)).all (· < p.entries.size) = true := by
    rw [wordWaysOf_eq hroom (h.setOf_lt pc), List.all_eq_true]
    intro index hindex
    obtain ⟨way, hway, rfl⟩ := List.mem_range'.1 hindex
    simpa using h.index_lt (h.setOf_lt pc) hway
  simp [checkedLookup, hall, guard]

theorem exists_trust (pc : UInt64) : ∃ counter, p.checkedTrust pc = some counter := by
  obtain ⟨-, -, htrust, -⟩ := p.config.sizes_of_validate h.valid
  have hlt : p.trustIndex pc < p.trust.size := by
    rw [h.trust_size, Config.trustSize, Nat.one_shiftLeft]
    exact toNat_and_lowMask_lt _ (by omega)
  exact ⟨_, Array.getElem?_eq_getElem hlt⟩

theorem checkedConsult_eq (hroom : p.config.hasRoom = true) (pc : UInt64) :
    p.checkedConsult pc = some (p.lookup pc) := by
  obtain ⟨counter, hcounter⟩ := h.exists_trust pc
  simp [checkedConsult, h.checkedLookup_eq hroom, hcounter, guard]

theorem checkedTrainTrust_eq (pc : UInt64) (isCorrect : Bool) :
    p.checkedTrainTrust pc isCorrect = some (p.trainTrust pc isCorrect) := by
  obtain ⟨counter, hcounter⟩ := h.exists_trust pc
  rw [checkedTrainTrust, hcounter]
  rfl

theorem checkedModifyHeld_eq {lookup : Lookup} (hlookup : Selects p.config lookup)
    (f : Entry → Entry) : p.checkedModifyHeld lookup f = some (p.modifyHeld lookup f) := by
  unfold checkedModifyHeld modifyHeld
  cases hhit : lookup.hit? with
  | none => rfl
  | some index =>
      have hlt : index < p.entries.size := h.entries_size ▸ hlookup.hit_lt index hhit
      have hentry := Array.getElem?_eq_getElem hlt
      simp [hentry, holds]

theorem checkedSpeculate_eq {lookup : Lookup} (hlookup : Selects p.config lookup)
    (outcome : Direction) :
    p.checkedSpeculate lookup outcome = some (p.speculate lookup outcome) :=
  h.checkedModifyHeld_eq hlookup _

theorem checkedRestore_eq {lookup : Lookup} (hlookup : Selects p.config lookup) :
    p.checkedRestore lookup = some (p.restore lookup) :=
  h.checkedModifyHeld_eq hlookup _

theorem modifyEntry (index : Nat) (f : Entry → Entry) :
    (p.modifyEntry index f).Ready :=
  ⟨h.valid, (Array.size_modify ..).trans h.entries_size, h.trust_size⟩

theorem trainTrust (pc : UInt64) (isCorrect : Bool) : (p.trainTrust pc isCorrect).Ready :=
  ⟨h.valid, h.entries_size, (Array.size_modify ..).trans h.trust_size⟩

end Ready

theorem checkedAllocateAmong_eq {p : LoopPredictor} (h : p.Ready) (tag : Nat)
    (outcome : Direction) {indices : List Nat}
    (hindices : ∀ index ∈ indices, index < p.entries.size) :
    checkedAllocateAmong tag outcome indices p = some (allocateAmong tag outcome indices p) := by
  induction indices generalizing p with
  | nil => rfl
  | cons index rest ih =>
      have hentry := Array.getElem?_eq_getElem (hindices index List.mem_cons_self)
      obtain ⟨hconfidence, hage, -⟩ := p.config.counters_of_validate h.valid
      have hrest := ih (h.modifyEntry index fun e => { e with age := e.age.decrement })
        fun index' hindex' => by
          refine Nat.lt_of_lt_of_eq (hindices index' (List.mem_cons_of_mem _ hindex')) ?_
          exact Array.size_modify.symm
      simp only [checkedAllocateAmong, allocateAmong, hentry, Option.bind_eq_bind,
        Option.bind_some, hconfidence, hage, guard, if_true, hrest]
      split
      · rfl
      · rfl

/-- A commit of a lookup of this predictor passes all checks, however old the lookup. -/
theorem Ready.checkedCommit_eq {p : LoopPredictor} (h : p.Ready)
    (hroom : p.config.hasRoom = true) {lookup : Lookup}
    (hlookup : Selects p.config lookup) (outcome primary : Direction)
    (mispredicted mayAllocate : Bool) (way : Nat) :
    p.checkedCommit lookup outcome primary mispredicted mayAllocate way =
      some (p.commit lookup outcome primary mispredicted mayAllocate way) := by
  obtain ⟨hways, -, -, -⟩ := p.config.sizes_of_validate h.valid
  unfold checkedCommit commit
  split
  · exact h.checkedModifyHeld_eq hlookup _
  · split
    · have hpos := Nat.pos_of_ne_zero hways
      rw [wordScan_eq hroom hlookup.set_lt hpos]
      refine checkedAllocateAmong_eq h lookup.tag outcome fun index hindex => ?_
      obtain ⟨i, -, rfl⟩ := List.mem_map.1 hindex
      exact h.index_lt hlookup.set_lt (Nat.mod_lt _ hpos)
    · rfl

end LoopPredictor

/-! ## Checked operations of the corrector -/

namespace Corrector

/-- The corrector that has learned nothing, if its counters and folds exist. -/
def checkedBlank (config : Config) : Option Corrector := do
  guard (Counter.Range.supports config.weightBits)
  guard (Counter.Range.supports config.thresholdBits)
  guard (FoldedHistory.supports config.historyLogSize)
  return blank config

/-- The weights that a lookup selects, one in each table that it has an index for. -/
def checkedWeights (c : Corrector) (lookup : Lookup) : Option Unit := do
  guard (lookup.biasIndex < c.bias.size)
  guard ((c.history.zip lookup.historyIndices).all fun (table, i) => i < table.size)
  guard (lookup.pathIndex < c.path.size)

def checkedPredict (c : Corrector) (pc : UInt64) (outcome : Direction) (confidence : Confidence)
    (primary : Direction) (path : PathHistory) : Option Lookup := do
  let lookup := c.predict pc outcome confidence primary path
  c.checkedWeights lookup
  return lookup

def checkedCommit (c : Corrector) (lookup : Lookup) (outcome : Direction) : Option Corrector := do
  if lookup.outcome ≠ outcome ∨ (lookup.sum.natAbs : Int) < c.threshold then
    c.checkedWeights lookup
  return c.commit lookup outcome

theorem checkedBlank_eq {c : Config} (h : c.validate = .ok ()) :
    checkedBlank c = some (blank c) := by
  obtain ⟨hweight, hthreshold⟩ := c.counters_of_validate h
  obtain ⟨-, hhistory, -⟩ := c.logSizes_of_validate h
  have hfold : FoldedHistory.supports c.historyLogSize = true := decide_eq_true (by omega)
  simp [checkedBlank, hweight, hthreshold, hfold, guard]

theorem checkedWeights_eq {c : Corrector} {lookup : Lookup} (hfits : c.fits lookup = true) :
    c.checkedWeights lookup = some () := by
  simp only [fits, Bool.and_eq_true, decide_eq_true_eq] at hfits
  obtain ⟨⟨⟨hbias, hpath⟩, -⟩, hhistory⟩ := hfits
  rw [checkedWeights, hhistory]
  simp [hbias, hpath, guard]

theorem Shaped.checkedPredict_eq {c : Corrector} (h : c.Shaped) (pc : UInt64)
    (outcome : Direction) (confidence : Confidence) (primary : Direction) (path : PathHistory) :
    c.checkedPredict pc outcome confidence primary path =
      some (c.predict pc outcome confidence primary path) := by
  rw [checkedPredict, checkedWeights_eq (h.fits_predict pc outcome confidence primary path)]
  rfl

theorem checkedCommit_eq {c : Corrector} {lookup : Lookup} (hfits : c.fits lookup = true)
    (outcome : Direction) : c.checkedCommit lookup outcome = some (c.commit lookup outcome) := by
  simp only [checkedCommit, checkedWeights_eq hfits]
  split
  · rfl
  · rfl

end Corrector

end BranchPrediction
