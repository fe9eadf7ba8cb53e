import BranchPrediction.Proofs.Learning.Changes
import BranchPrediction.Proofs.Learning.Loops

/-!
# What a reset forgets

A reset of a table clears it field by field: counters go to zero, entries are invalidated, folds are
cleared.  What it leaves standing are the sizes, the widths and the windows, and no operation
changes these.  So a reset does not see what was learned before it: `(change x).reset = x.reset` for
every change `x` goes through, and the reset of a new table is that table.

For the loop predictor and the corrector, which a reset builds anew, it is enough that no operation
changes their configuration.
-/

namespace BranchPrediction

/-! ## Counters -/

namespace Counter

theorem reset_of_range_eq {c d : Counter} (h : c.range = d.range) : c.reset = d.reset :=
  congrArg zero h

@[simp]
theorem reset_zero (range : Range) : (zero range).reset = zero range :=
  rfl

@[simp]
theorem reset_reset (c : Counter) : c.reset.reset = c.reset :=
  rfl

@[simp]
theorem reset_set (c : Counter) (value : Int) : (c.set value).reset = c.reset :=
  reset_of_range_eq (c.range_set value)

@[simp]
theorem reset_step (c : Counter) (up : Bool) : (c.step up).reset = c.reset :=
  reset_of_range_eq (c.range_step up)

@[simp]
theorem reset_train (c : Counter) (direction : Direction) : (c.train direction).reset = c.reset :=
  c.reset_step direction.isTaken

@[simp]
theorem reset_halve (c : Counter) : c.halve.reset = c.reset :=
  reset_of_range_eq c.range_halve

end Counter

/-! ## The bimodal table -/

namespace Bimodal

theorem reset_train (t : Bimodal) (index : Nat) (direction : Direction) :
    (t.train index direction).reset = t.reset := by
  rcases t with ⟨config, counters, counters_size⟩
  simp only [train, reset, mk.injEq, true_and]
  exact map_modify_of_eq (fun c => c.reset_train direction) counters _

theorem reset_reset (t : Bimodal) : t.reset.reset = t.reset := by
  rcases t with ⟨config, counters, counters_size⟩
  simp only [reset, mk.injEq, true_and, Array.map_map]
  rfl

theorem reset_zero (config : Config) : (zero config).reset = zero config := by
  simp [zero, reset]

end Bimodal

/-! ## Tagged tables -/

variable {P : Type} [Payload P]

namespace TaggedEntry

theorem invalidate_stepConfidence (e : TaggedEntry P) (up : Bool) :
    (e.stepConfidence up).invalidate = e.invalidate := by
  simp [invalidate, stepConfidence]

theorem invalidate_stepUseful (e : TaggedEntry P) (up : Bool) :
    (e.stepUseful up).invalidate = e.invalidate := by
  simp [invalidate, stepUseful]

theorem invalidate_age (e : TaggedEntry P) : e.age.invalidate = e.invalidate := by
  simp [invalidate, age]

theorem invalidate_allocate (e : TaggedEntry P) (tag : Nat) (confidence : Int) (payload : P) :
    (e.allocate tag confidence payload).invalidate = e.invalidate := by
  simp [invalidate, allocate]

theorem invalidate_invalidate (e : TaggedEntry P) : e.invalidate.invalidate = e.invalidate :=
  rfl

theorem invalidate_blank (confidence useful : Counter.Range) :
    (blank confidence useful : TaggedEntry P).invalidate = blank confidence useful :=
  rfl

end TaggedEntry

namespace TaggedTable

theorem reset_modifyEntry {f : TaggedEntry P → TaggedEntry P}
    (hf : ∀ e, (f e).invalidate = e.invalidate) (t : TaggedTable P) (index : Nat) :
    (t.modifyEntry index f).reset = t.reset := by
  rcases t with ⟨shape, bank, entries, indexFold, tagFold, narrowFold, entries_size⟩
  simp only [modifyEntry, reset, mapEntries, mapFolds, mk.injEq, true_and, and_true]
  exact map_modify_of_eq hf entries _

theorem reset_mapEntries {f : TaggedEntry P → TaggedEntry P}
    (hf : ∀ e, (f e).invalidate = e.invalidate) (t : TaggedTable P) :
    (t.mapEntries f).reset = t.reset := by
  rcases t with ⟨shape, bank, entries, indexFold, tagFold, narrowFold, entries_size⟩
  simp only [reset, mapEntries, mapFolds, mk.injEq, true_and, and_true, Array.map_map]
  exact Array.map_congr_left fun e _ => hf e

theorem reset_age (t : TaggedTable P) : t.age.reset = t.reset :=
  reset_mapEntries TaggedEntry.invalidate_age t

theorem reset_mapFolds {g : FoldedHistory → FoldedHistory} (hg : KeepsShape g)
    (t : TaggedTable P) : (t.mapFolds g).reset = t.reset := by
  have hclear : ∀ f : FoldedHistory, (g f).clear = f.clear := by
    intro f
    simp only [FoldedHistory.clear, hg.width_eq, hg.window_eq]
  rcases t with ⟨shape, bank, entries, indexFold, tagFold, narrowFold, entries_size⟩
  simp only [reset, mapEntries, mapFolds, hclear]

theorem reset_reset (t : TaggedTable P) : t.reset.reset = t.reset :=
  (reset_mapFolds ⟨fun _ => rfl, fun _ => rfl⟩ _).trans
    (reset_mapEntries TaggedEntry.invalidate_invalidate t)

theorem reset_blank (bank : Nat) (shape : TableShape) (confidenceBits usefulBits : Nat) :
    (blank bank shape confidenceBits usefulBits : TaggedTable P).reset =
      blank bank shape confidenceBits usefulBits := by
  simp [blank, reset, mapEntries, mapFolds, TaggedEntry.invalidate_blank, FoldedHistory.clear,
    FoldedHistory.zero]

end TaggedTable

/-! ## Ladders -/

namespace Ladder

/-- A ladder whose tables and use-alt-on-new counters a reset cannot tell from others is reset like
the other; the statistics do not matter. -/
theorem reset_congr {l k : Ladder P} (hconfig : k.config = l.config)
    (htables : k.tables.map TaggedTable.reset = l.tables.map TaggedTable.reset)
    (huseAlt : k.useAlt.map Counter.reset = l.useAlt.map Counter.reset) : k.reset = l.reset := by
  have hsize : k.tables.size = l.tables.size := by
    simpa using congrArg Array.size htables
  rcases l with ⟨config, tables, useAlt, stats⟩
  rcases k with ⟨config', tables', useAlt', stats'⟩
  simp only [reset, mk.injEq]
  exact ⟨hconfig, htables, huseAlt, congrArg LadderStats.zero hsize⟩

theorem reset_mapTables {change : TaggedTable P → TaggedTable P}
    (hchange : ∀ t, (change t).reset = t.reset) (tables : Array (TaggedTable P)) :
    (tables.map change).map TaggedTable.reset = tables.map TaggedTable.reset := by
  rw [Array.map_map]
  exact Array.map_congr_left fun t _ => hchange t

theorem reset_modifyEntry {f : TaggedEntry P → TaggedEntry P}
    (hf : ∀ e, (f e).invalidate = e.invalidate) (l : Ladder P) (slots : Array Slot) (bank : Nat) :
    (l.modifyEntry slots bank f).reset = l.reset := by
  unfold modifyEntry
  split
  · rfl
  · next slot _ =>
      refine reset_congr rfl ?_ rfl
      exact map_modify_of_eq (fun t => t.reset_modifyEntry hf slot.index) l.tables bank

/-- A reset forgets what was learned by changes of entries that it does not see. -/
theorem Learns.reset_eq {slots : Array Slot} {l k : Ladder P}
    (h : Learns slots (fun _ f => ∀ e, (f e).invalidate = e.invalidate) l k) :
    k.reset = l.reset := by
  induction h with
  | refl => rfl
  | entry _ hf ih => rw [reset_modifyEntry hf, ih]
  | @useAlt k _ bank conditional altCorrect ih =>
      rw [← ih]
      exact reset_congr rfl rfl (map_modify_of_eq (fun c => c.reset_step altCorrect) k.useAlt _)
  | @age k _ ih =>
      rw [← ih]
      exact reset_congr rfl (reset_mapTables TaggedTable.reset_age k.tables) rfl
  | stats _ f ih => exact ih

theorem reset_mapFolds {g : FoldedHistory → FoldedHistory} (hg : KeepsShape g) (l : Ladder P) :
    Ladder.reset (mapFolds g l) = l.reset :=
  reset_congr rfl (reset_mapTables (TaggedTable.reset_mapFolds hg) l.tables) rfl

theorem reset_reset (l : Ladder P) : l.reset.reset = l.reset := by
  refine reset_congr rfl (reset_mapTables TaggedTable.reset_reset l.tables) ?_
  change (l.useAlt.map Counter.reset).map Counter.reset = _
  rw [Array.map_map]
  rfl

theorem reset_blank (c : Config) : (blank c : Ladder P).reset = blank c := by
  refine (Ladder.mk.injEq ..).mpr ⟨rfl, ?_, ?_, ?_⟩
  · apply Array.ext
    · simp
    · intro i hleft hright
      simp [TaggedTable.reset_blank]
  · simp
  · simp

end Ladder

/-! ## TAGE -/

namespace Tage

theorem reset_congr {s t : Tage} (hbase : s.base.reset = t.base.reset)
    (hladder : s.ladder.reset = t.ladder.reset) : s.reset = t.reset := by
  rcases s with ⟨base, ladder⟩
  rcases t with ⟨base', ladder'⟩
  simp only [reset, mk.injEq]
  exact ⟨hbase, hladder⟩

/-- What a commit teaches TAGE is forgotten by a reset. -/
theorem reset_commit (t : Tage) (p : Prediction) (outcome finalOutcome : Direction)
    (skip : Bool) : (t.commit p outcome finalOutcome skip).reset = t.reset := by
  apply reset_congr
  · rcases t.base_commit p outcome finalOutcome skip with hsame | htrained
    · rw [hsame]
    · rw [htrained, Bimodal.reset_train]
  · refine Ladder.Learns.reset_eq (learns_commit ?_ ?_ ?_ t p outcome finalOutcome skip)
    · exact fun _ up e => e.invalidate_stepConfidence up
    · exact fun _ up e => e.invalidate_stepUseful up
    · exact fun _ tag confidence e => e.invalidate_allocate tag confidence ⟨⟩

theorem reset_mapFolds {g : FoldedHistory → FoldedHistory} (hg : KeepsShape g) (t : Tage) :
    Tage.reset (mapFolds g t) = t.reset :=
  reset_congr rfl (t.ladder.reset_mapFolds hg)

theorem reset_reset (t : Tage) : t.reset.reset = t.reset :=
  reset_congr t.base.reset_reset t.ladder.reset_reset

theorem reset_blank (base : Bimodal.Config) (ladder : Ladder.Config) :
    (blank base ladder).reset = blank base ladder := by
  simp only [blank, reset, Bimodal.reset_zero, Ladder.reset_blank]

end Tage

/-! ## ITTAGE -/

namespace Ittage

theorem invalidate_weaken (target : UInt64) (e : TaggedEntry Target) :
    (weaken target e).invalidate = e.invalidate := by
  have hstep := e.invalidate_stepConfidence false
  unfold weaken
  simp only
  split
  · exact hstep
  · exact hstep

theorem reset_learn (r : Record) (target : UInt64) (ladder : Ladder Target) :
    (learn r target ladder).reset = ladder.reset := by
  refine Ladder.Learns.reset_eq (learns_learn ?_ ?_ ?_ ?_ ladder)
  · exact fun _ up e => e.invalidate_stepConfidence up
  · exact fun _ up e => e.invalidate_stepUseful up
  · exact fun _ _ e => invalidate_weaken target e
  · exact fun _ tag e => e.invalidate_allocate tag 0 _

end Ittage

end BranchPrediction
