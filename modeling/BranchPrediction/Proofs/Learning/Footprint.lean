import BranchPrediction.Proofs.Learning.TageLesson
import BranchPrediction.Proofs.Safety.Lookups

/-!
# The footprint of a commit

A commit of TAGE may write one new entry, and then only if the prediction and the one acted on were
wrong, no fresh entry was right on its own, and there is a table past the longest match.  Nothing
else changes the tag of any entry.  Away from the slots and the base counter of the record and the
use-alt-on-new counter of its longest match, a commit leaves all entries and counters alone, except
that the last commit of a period halves every usefulness (`Tage.Footprint`).

This is so for every record that a predictor of the configuration made, also for one that was made
long before the commit, or in a state that never led to it: a record only has to be in the range of
the tables, and every prediction is.
-/

namespace BranchPrediction

open Ladder

namespace Tage

/-! ## States -/

/-- The predictors that a new one leads to: by commits of any records, by moves of the history, and
by resets. -/
inductive Reachable (base : Bimodal.Config) (c : Ladder.Config) : Tage → Prop
  | blank : Reachable base c (blank base c)
  | commit {t : Tage} (h : Reachable base c t) (p : Prediction)
      (outcome finalOutcome : Direction) (skip : Bool) :
      Reachable base c (t.commit p outcome finalOutcome skip)
  | pushed {t : Tage} (h : Reachable base c t) (r : HistoryRegister) :
      Reachable base c (HistoryView.pushed r t)
  | popping {t : Tage} (h : Reachable base c t) (r : HistoryRegister) :
      Reachable base c (HistoryView.popping r t)
  | reset {t : Tage} (h : Reachable base c t) : Reachable base c t.reset

/-- The tables have the sizes of the configurations, and their counters the configured ranges. -/
structure Regular (base : Bimodal.Config) (c : Ladder.Config) (t : Tage) : Prop where
  base : t.base.Regular base
  ladder : t.ladder.Regular c

theorem Reachable.reset_eq {base : Bimodal.Config} {c : Ladder.Config} {t : Tage}
    (h : Reachable base c t) : t.reset = Tage.blank base c := by
  induction h with
  | blank => exact reset_blank base c
  | @commit t _ p outcome finalOutcome skip ih =>
      rw [reset_commit t p outcome finalOutcome skip, ih]
  | @pushed t _ r ih =>
      rw [FoldFamily.pushed_eq, reset_mapFolds (keepsShape_pushed r), ih]
  | @popping t _ r ih =>
      rw [FoldFamily.popping_eq, reset_mapFolds (keepsShape_popping r), ih]
  | @reset t _ ih => rw [reset_reset, ih]

theorem Reachable.regular {base : Bimodal.Config} {c : Ladder.Config} {t : Tage}
    (h : Reachable base c t) : t.Regular base c where
  base := Bimodal.regular_of_reset (congrArg Tage.base h.reset_eq)
  ladder := regular_of_reset (congrArg Tage.ladder h.reset_eq)

/-! ## Footprints -/

/-- An allocation is due and can be tried: the prediction and the one acted on were wrong, it is not
so that a fresh longest match was right, and there is a table past the longest match. -/
structure Gate (tables : Nat) (p : Prediction) (outcome finalOutcome : Direction) : Prop where
  predicted : p.outcome ≠ outcome
  acted : finalOutcome ≠ outcome
  longest : ¬(p.pseudoNew = true ∧ p.longestOutcome = outcome)
  past : ∃ bank < tables, ∀ hit, p.hit? = some hit → hit < bank

/-- What a commit that turns `t` into `u` may have changed, where `written?` is the table that
received a new entry. -/
structure Footprint (t u : Tage) (p : Prediction) (outcome finalOutcome : Direction)
    (written? : Option Nat) : Prop where
  /-- An entry is written through the gate only, in a table past the longest match. -/
  gate : ∀ bank, written? = some bank →
    Gate t.ladder.size p outcome finalOutcome ∧ bank < t.ladder.size ∧
      ∀ hit, p.hit? = some hit → hit < bank
  /-- The new entry is at the recorded index, and it is fresh. -/
  fresh : ∀ bank, written? = some bank → ∃ slot e, p.slots[bank]? = some slot ∧
    u.ladder.entryAt? bank slot.index = some e ∧ e.tag? = some slot.tag ∧ e.useful.value = 0 ∧
      e.confidence.value = initialConfidence outcome
  /-- No other entry has another tag or payload than before. -/
  tags : ∀ bank index, (written? = some bank → ∀ slot, p.slots[bank]? = some slot →
      slot.index ≠ index) →
    (u.ladder.entryAt? bank index).map (fun e => (e.tag?, e.payload)) =
      (t.ladder.entryAt? bank index).map fun e => (e.tag?, e.payload)
  /-- Away from the recorded slots entries age, and they do so at the end of a period only. -/
  elsewhere : ∀ bank index, (∀ slot, p.slots[bank]? = some slot → slot.index ≠ index) →
    u.ladder.entryAt? bank index =
      if (t.ladder.stats.commits + 1) % t.ladder.config.usefulResetPeriod = 0 then
        (t.ladder.entryAt? bank index).map TaggedEntry.age
      else t.ladder.entryAt? bank index
  /-- The other counters of the base table are as before. -/
  base : ∀ index, index ≠ p.baseIndex → u.base.counters[index]? = t.base.counters[index]?
  /-- The use-alt-on-new counters are as before, but for that of the longest match. -/
  useAlt : ∀ index, (∀ hit, p.hit? = some hit →
      t.ladder.useAltIndex hit p.conditional ≠ index) →
    u.ladder.useAlt[index]? = t.ladder.useAlt[index]?
  /-- What is written is counted. -/
  allocations : u.ladder.stats.allocations =
    t.ladder.stats.allocations + if written?.isSome then 1 else 0
  /-- The gate was open, and nothing is written: that is counted too. -/
  failed : Gate t.ladder.size p outcome finalOutcome ∧ written? = none →
    u.ladder.stats.failedAllocations = t.ladder.stats.failedAllocations + 1
  /-- Otherwise it is not. -/
  unfailed : ¬(Gate t.ladder.size p outcome finalOutcome ∧ written? = none) →
    u.ladder.stats.failedAllocations = t.ladder.stats.failedAllocations
  /-- Folds and configurations are as before. -/
  frame : folds u = folds t ∧ u.base.config = t.base.config ∧ u.ladder.config = t.ladder.config

/-! ## Commits -/

/-- An allocation is tried if and only if the gate is open. -/
theorem gate_iff {t : Tage} {p : Prediction} {outcome finalOutcome : Direction} {skip : Bool}
    (hscan : 0 < t.ladder.config.maxAllocationScan) :
    Gate t.ladder.size p outcome finalOutcome ↔
      allocates p outcome finalOutcome = true ∧ t.ladder.candidates p.hit? skip ≠ [] := by
  rw [candidates_ne_nil_iff hscan]
  simp only [allocates, Bool.and_eq_true, decide_eq_true_iff, Bool.not_eq_true',
    Bool.and_eq_false_iff]
  constructor
  · rintro ⟨hpredicted, hacted, hlongest, hpast⟩
    refine ⟨⟨⟨hpredicted, hacted⟩, ?_⟩, hpast⟩
    by_cases hnew : p.pseudoNew = true
    · exact .inr (decide_eq_false fun h => hlongest ⟨hnew, h⟩)
    · exact .inl (Bool.eq_false_of_not_eq_true hnew)
  · rintro ⟨⟨⟨hpredicted, hacted⟩, hlongest⟩, hpast⟩
    refine ⟨hpredicted, hacted, ?_, hpast⟩
    rintro ⟨hnew, hright⟩
    simp [hnew, hright] at hlongest

theorem gate_of_received {t : Tage} {p : Prediction} {outcome finalOutcome : Direction}
    {skip : Bool} (hscan : 0 < t.ladder.config.maxAllocationScan) {bank : Nat}
    (hbank : t.received? p outcome finalOutcome skip = some bank) :
    Gate t.ladder.size p outcome finalOutcome := by
  obtain ⟨hdue, hlt, hpast, -⟩ := received?_spec hbank
  have hsome : t.ladder.candidates p.hit? skip ≠ [] :=
    (candidates_ne_nil_iff hscan).2 ⟨bank, hlt, past_le_iff.1 hpast⟩
  exact (gate_iff hscan).2 ⟨hdue, hsome⟩

section Commit

variable {base : Bimodal.Config} {c : Ladder.Config} {t : Tage} {p : Prediction}
  (ht : t.Regular base c) (hp : p.InRange base c) (outcome finalOutcome : Direction) (skip : Bool)

section Entries

include hp

/-- What the tables hold after a commit is what its lesson makes of it, aged if that is due. -/
theorem entryAt?_commit (bank index : Nat) :
    (t.commit p outcome finalOutcome skip).ladder.entryAt? bank index =
      ((t.ladder.amend p.slots (t.lesson p outcome finalOutcome skip)).entryAt? bank index).map
        (·.settle t.ladder.isDue) := by
  rw [ladder_commit outcome finalOutcome skip hp.selects.alt_lt, entryAt?_tick, isDue_taught]
  rfl

theorem entryAt?_commit_of_ne {bank index : Nat}
    (hne : ∀ table slot, t.ladder.tables[bank]? = some table → p.slots[bank]? = some slot →
      slot.index % table.entries.size ≠ index) :
    (t.commit p outcome finalOutcome skip).ladder.entryAt? bank index =
      (t.ladder.entryAt? bank index).map (·.settle t.ladder.isDue) := by
  rw [entryAt?_commit hp, entryAt?_amend_of_ne hne]

include ht

theorem entryAt?_commit_self {bank : Nat} {slot : Slot} (hslot : p.slots[bank]? = some slot) :
    (t.commit p outcome finalOutcome skip).ladder.entryAt? bank slot.index =
      (t.ladder.entryAt? bank slot.index).map fun e =>
        (t.lesson p outcome finalOutcome skip bank slot e).settle t.ladder.isDue := by
  have hindex : ∀ table, t.ladder.tables[bank]? = some table → slot.index < table.entries.size :=
    fun table htable => ht.ladder.index_lt hp.selects htable hslot
  rw [entryAt?_commit hp, entryAt?_amend hslot hindex, Option.map_map]
  rfl

theorem mod_ne {bank index : Nat}
    (hother : ∀ slot, p.slots[bank]? = some slot → slot.index ≠ index) :
    ∀ table slot, t.ladder.tables[bank]? = some table → p.slots[bank]? = some slot →
      slot.index % table.entries.size ≠ index := by
  intro table slot htable hslot
  rw [Nat.mod_eq_of_lt (ht.ladder.index_lt hp.selects htable hslot)]
  exact hother slot hslot

/-- Away from the recorded slots, entries age at the end of a period, and else stay as they are. -/
theorem entryAt?_commit_elsewhere {bank index : Nat}
    (hother : ∀ slot, p.slots[bank]? = some slot → slot.index ≠ index) :
    (t.commit p outcome finalOutcome skip).ladder.entryAt? bank index =
      if (t.ladder.stats.commits + 1) % t.ladder.config.usefulResetPeriod = 0 then
        (t.ladder.entryAt? bank index).map TaggedEntry.age
      else t.ladder.entryAt? bank index := by
  rw [entryAt?_commit_of_ne hp outcome finalOutcome skip (mod_ne ht hp hother)]
  split
  · next hdue =>
      simp only [TaggedEntry.settle, isDue, hdue, decide_true, if_true]
  · next hdue =>
      simp only [TaggedEntry.settle, isDue, hdue, decide_false, Bool.false_eq_true, if_false,
        Option.map_id']

/-- The new entry has the recorded tag, no usefulness, and a weak counter. -/
theorem exists_fresh {bank : Nat} (hbank : t.received? p outcome finalOutcome skip = some bank) :
    ∃ slot e, p.slots[bank]? = some slot ∧
      (t.commit p outcome finalOutcome skip).ladder.entryAt? bank slot.index = some e ∧
      e.tag? = some slot.tag ∧ e.useful.value = 0 ∧
      e.confidence.value = initialConfidence outcome := by
  obtain ⟨-, hlt, -⟩ := received?_spec hbank
  obtain ⟨table, htable⟩ : ∃ table, t.ladder.tables[bank]? = some table :=
    ⟨_, Array.getElem?_eq_getElem hlt⟩
  obtain ⟨slot, hslot⟩ : ∃ slot, p.slots[bank]? = some slot := by
    refine ⟨_, Array.getElem?_eq_getElem (?_ : bank < p.slots.size)⟩
    rw [hp.selects.slots_size, ← ht.ladder.size_eq]
    exact hlt
  have hindex := ht.ladder.index_lt hp.selects htable hslot
  set old := table.entries[slot.index] with hold
  have hbefore : t.ladder.entryAt? bank slot.index = some old := by
    rw [ entryAt?, htable, Option.bind_some, Array.getElem?_eq_getElem hindex]
  have hrange := (ht.ladder.confidence table (Array.mem_of_getElem? htable) old
    (Array.getElem_mem hindex)).range_eq
  refine ⟨slot, (old.allocate slot.tag (initialConfidence outcome) ⟨⟩).settle t.ladder.isDue,
    hslot, ?_, ?_, ?_, ?_⟩
  · rw [entryAt?_commit_self ht hp outcome finalOutcome skip hslot, hbefore, Option.map_some,
      lesson_of_received? hp.selects.alt_lt hbank]
  · exact TaggedEntry.tag?_settle _ _
  · obtain ⟨hnonneg, hle⟩ := TaggedEntry.useful_settle_le t.ladder.isDue
      (old.allocate slot.tag (initialConfidence outcome) ⟨⟩) (le_refl _)
    exact le_antisymm hle hnonneg
  · rw [TaggedEntry.confidence_settle]
    change (old.confidence.set (initialConfidence outcome)).value = initialConfidence outcome
    have hpow := Nat.two_pow_pos (c.confidenceBits - 1)
    rw [Counter.value_set, hrange]
    simp only [Payload.confidenceRange, Counter.Range.signed, Nat.one_shiftLeft]
    cases outcome with
    | taken => simp only [initialConfidence]; omega
    | notTaken => simp only [initialConfidence]; omega

/-- Only a new entry has another tag than the entry before. -/
theorem tag?_commit {bank index : Nat}
    (hother : t.received? p outcome finalOutcome skip = some bank → ∀ slot,
      p.slots[bank]? = some slot → slot.index ≠ index) :
    ((t.commit p outcome finalOutcome skip).ladder.entryAt? bank index).map
        (fun e => (e.tag?, e.payload)) =
      (t.ladder.entryAt? bank index).map fun e => (e.tag?, e.payload) := by
  have hmap : ∀ f : TaggedEntry SignOnly → TaggedEntry SignOnly, (∀ e, (f e).tag? = e.tag?) →
      ((t.ladder.entryAt? bank index).map f).map (fun e => (e.tag?, e.payload)) =
        (t.ladder.entryAt? bank index).map fun e => (e.tag?, e.payload) := by
    intro f hf
    rw [Option.map_map]
    exact congrArg (Option.map · _) (funext fun e => Prod.ext (hf e) rfl)
  by_cases hslot : ∃ slot, p.slots[bank]? = some slot ∧ slot.index = index
  · obtain ⟨slot, hslot, rfl⟩ := hslot
    rw [entryAt?_commit_self ht hp outcome finalOutcome skip hslot]
    refine hmap _ fun e => ?_
    rw [TaggedEntry.tag?_settle, tag?_lesson fun h => hother h slot hslot rfl]
  · have hne : ∀ slot, p.slots[bank]? = some slot → slot.index ≠ index :=
      fun slot hsome hindex => hslot ⟨slot, hsome, hindex⟩
    rw [entryAt?_commit_of_ne hp outcome finalOutcome skip (mod_ne ht hp hne)]
    exact hmap _ fun e => TaggedEntry.tag?_settle _ e

/-- The other counters of the base table keep their values. -/
theorem counters_commit_of_ne {index : Nat} (hne : index ≠ p.baseIndex) :
    (t.commit p outcome finalOutcome skip).base.counters[index]? = t.base.counters[index]? := by
  rcases t.base_commit p outcome finalOutcome skip with hsame | htrained
  · rw [hsame]
  · have hmod : p.baseIndex % t.base.counters.size = p.baseIndex := by
      rw [ht.base.size_eq]
      exact Nat.mod_eq_of_lt hp.baseIndex_lt
    rw [htrained]
    change (t.base.counters.modify (p.baseIndex % t.base.counters.size) _)[index]? = _
    rw [Array.getElem?_modify, hmod, if_neg (Ne.symm hne)]

omit ht

/-- A commit moves the use-alt-on-new counter of the longest match at most. -/
theorem useAlt_commit_of_ne {index : Nat}
    (hne : ∀ hit, p.hit? = some hit → t.ladder.useAltIndex hit p.conditional ≠ index) :
    (t.commit p outcome finalOutcome skip).ladder.useAlt[index]? = t.ladder.useAlt[index]? := by
  rw [ladder_commit outcome finalOutcome skip hp.selects.alt_lt, useAlt_tick]
  change (t.alternated p outcome)[index]? = _
  unfold alternated
  split
  · next hit hhit =>
      split
      · rw [Array.getElem?_modify, if_neg (hne hit hhit)]
      · rfl
  · rfl

end Entries

/-- A commit counts an entry that it writes, and an allocation that it tries in vain. -/
theorem counts_commit (hdescend : Descend p.hit? p.alt?) :
    let tried := allocates p outcome finalOutcome && t.ladder.candidates p.hit? skip ≠ []
    let received := (t.received? p outcome finalOutcome skip).isSome
    let u := t.commit p outcome finalOutcome skip
    u.ladder.stats.allocations = t.ladder.stats.allocations + (tried && received).toNat ∧
      u.ladder.stats.failedAllocations =
        t.ladder.stats.failedAllocations + (tried && !received).toNat := by
  obtain ⟨-, hallocations, hfailed⟩ :=
    t.ladder.stats.record_counts p.source p.hit? (p.outcome = outcome)
  simp only
  rw [ladder_commit outcome finalOutcome skip hdescend, allocations_tick, failedAllocations_tick]
  exact ⟨congrArg (· + _) hallocations, congrArg (· + _) hfailed⟩

include ht hp in
/-- What a commit does is in its footprint. -/
theorem footprint (hvalid : c.validate = .ok ()) :
    Footprint t (t.commit p outcome finalOutcome skip) p outcome finalOutcome
      (t.received? p outcome finalOutcome skip) := by
  have hscan : 0 < t.ladder.config.maxAllocationScan :=
    ht.ladder.config_eq ▸ c.maxAllocationScan_pos_of_validate hvalid
  have hgate : Gate t.ladder.size p outcome finalOutcome ↔
      allocates p outcome finalOutcome = true ∧ t.ladder.candidates p.hit? skip ≠ [] :=
    gate_iff hscan
  obtain ⟨hallocations, hfailed⟩ :=
    t.counts_commit outcome finalOutcome skip hp.selects.alt_lt
  rw [← decide_eq_true_iff (p := t.ladder.candidates p.hit? skip ≠ []), ← Bool.and_eq_true]
    at hgate
  constructor
  case gate =>
    intro bank hbank
    obtain ⟨-, hlt, hpast, -⟩ := received?_spec hbank
    exact ⟨gate_of_received hscan hbank, hlt, past_le_iff.1 hpast⟩
  case fresh => exact fun bank => exists_fresh ht hp outcome finalOutcome skip
  case tags => exact fun bank index => tag?_commit ht hp outcome finalOutcome skip
  case elsewhere =>
    exact fun bank index => entryAt?_commit_elsewhere ht hp outcome finalOutcome skip
  case base => exact fun index => counters_commit_of_ne ht hp outcome finalOutcome skip
  case useAlt => exact fun index => useAlt_commit_of_ne hp outcome finalOutcome skip
  case allocations =>
    rw [hallocations]
    cases hreceived : t.received? p outcome finalOutcome skip with
    | none =>
        rw [Option.isSome_none, Bool.and_false]
        rfl
    | some bank =>
        rw [hgate.1 (gate_of_received hscan hreceived)]
        rfl
  case failed =>
    rintro ⟨hgateOpen, hnone⟩
    rw [hfailed, hgate.1 hgateOpen, hnone]
    rfl
  case unfailed =>
    intro hnot
    rw [hfailed]
    cases hreceived : t.received? p outcome finalOutcome skip with
    | none =>
        have hclosed : ¬Gate t.ladder.size p outcome finalOutcome :=
          fun hgateOpen => hnot ⟨hgateOpen, hreceived⟩
        rw [Bool.eq_false_of_not_eq_true (fun h => hclosed (hgate.2 h))]
        rfl
    | some bank =>
        rw [Option.isSome_some, Bool.not_true, Bool.and_false]
        rfl
  case frame =>
    refine ⟨(foldBlind_commit p outcome finalOutcome skip).folds_eq t, ?_, ?_⟩
    · rcases t.base_commit p outcome finalOutcome skip with hsame | htrained
      · rw [hsame]
      · rw [htrained]
        rfl
    · rw [ladder_commit outcome finalOutcome skip hp.selects.alt_lt, config_tick]
      rfl

end Commit

end Tage

/-- The footprint of every commit.  A predictor `t` commits a record that a predictor `s` of the
same configurations made, be it an earlier state of `t`, `t` itself or any other: the commit writes
one entry at most, and what else it may have changed is said by `Tage.Footprint`.  All reachable
predictors are regular (`Tage.Reachable.regular`). -/
theorem commit_footprint {base : Bimodal.Config} {c : Ladder.Config}
    (hbase : base.validate = .ok ()) (hvalid : c.validate = .ok ()) {s t : Tage}
    (hs : s.Regular base c) (ht : t.Regular base c) (pc : UInt64) (path : PathHistory)
    (conditional : Bool) (outcome finalOutcome : Direction) (skip : Bool) :
    let p := s.predict pc path conditional
    Tage.Footprint t (t.commit p outcome finalOutcome skip) p outcome finalOutcome
      (t.received? p outcome finalOutcome skip) :=
  Tage.footprint ht
    (Tage.inRange_predict hs.base hs.ladder hbase hvalid pc path conditional)
    outcome finalOutcome skip hvalid

namespace Tage

def smallBase : Bimodal.Config :=
  { logSize := 1 }

def smallLadder : Ladder.Config where
  tables := [⟨2, 1, 2⟩, ⟨3, 1, 2⟩, ⟨4, 1, 2⟩]
  pathBits := 3
  historyBufferBits := 8
  maxInFlightBits := 3
  allocationSkip := false

/-- A new predictor after its first branch was taken. -/
def takenOnce : Tage :=
  let t := blank smallBase smallLadder
  t.commit (t.predict 4 (.empty 3) true) .taken .notTaken false

end Tage

/-- The record of the first branch, committed a second time, writes the entry of table 0 again. -/
theorem takenOnce_commit_footprint :
    let p := (Tage.blank Tage.smallBase Tage.smallLadder).predict 4 (.empty 3) true
    (Tage.smallBase.validate = .ok () ∧ Tage.smallLadder.validate = .ok ()) ∧
      ((Tage.blank Tage.smallBase Tage.smallLadder).Regular Tage.smallBase Tage.smallLadder ∧
        Tage.takenOnce.Regular Tage.smallBase Tage.smallLadder) ∧
      Tage.takenOnce.received? p .taken .notTaken false = some 0 ∧
      Tage.Footprint Tage.takenOnce (Tage.takenOnce.commit p .taken .notTaken false) p .taken
        .notTaken (Tage.takenOnce.received? p .taken .notTaken false) := by
  have hblank : Tage.Reachable Tage.smallBase Tage.smallLadder
      (.blank Tage.smallBase Tage.smallLadder) := .blank
  have honce : Tage.takenOnce.Regular Tage.smallBase Tage.smallLadder :=
    (hblank.commit _ _ _ _).regular
  exact ⟨⟨rfl, rfl⟩, ⟨hblank.regular, honce⟩, by decide +kernel,
    commit_footprint rfl rfl hblank.regular honce 4 (.empty 3) true .taken .notTaken false⟩

end BranchPrediction
