import BranchPrediction.Ittage.Basic
import BranchPrediction.Proofs.History.Rollback
import BranchPrediction.Proofs.Safety.Layers
import BranchPrediction.TageScl.Basic

/-!
# Checked builds

A build makes counters, folds and a register of the configured widths, and tables of the configured
sizes.  The checked builds answer `none` where one of them does not exist or has no room, but a size
that is no word is cut to one: the table made is then shorter than configured.

For a configuration that passes its own checks and for which there is room all of them exist, as
long as the longest history and the bits allowed in flight add up to less than a word; otherwise
the check of the history buffer can be passed by a buffer that is too small.
-/

namespace BranchPrediction

/-! ## Parts -/

/-- The base table at zero, if its counters exist. -/
def Bimodal.checkedZero (config : Config) : Option Bimodal := do
  guard (Counter.Range.supports config.counterBits)
  return zero config

theorem Bimodal.checkedZero_eq {c : Config} (h : c.validate = .ok ()) :
    checkedZero c = some (zero c) := by
  obtain ⟨-, hcounter⟩ := c.widths_of_validate h
  simp [checkedZero, hcounter, guard]

section Ladders

variable {P : Type} [Payload P]

/-- The ladder in which nothing was ever allocated, if its counters and folds exist and the
use-alt-on-new counters have room. -/
def Ladder.checkedBlank (config : Config) : Option (Ladder P) := do
  guard ((config.tables.mapIdx fun bank shape =>
    (TaggedTable.create bank shape config.confidenceBits config.usefulBits :
      Except Precondition (TaggedTable P))).all (·.isOk))
  guard (Counter.Range.supports config.useAltBits)
  let size := config.useAltBuckets * 2 % UInt64.size
  guard (hasRoomFor size)
  return { blank config with useAlt := Array.replicate size (.zero (.signed config.useAltBits)) }

theorem TaggedTable.create_eq {shape : TableShape} {confidenceBits usefulBits : Nat}
    (hconfidence : Counter.Range.supports confidenceBits = true)
    (huseful : Counter.Range.supports usefulBits = true) (hlogSize : shape.logSize < 64)
    (htagBits : shape.tagBits < 64) (hpos : 0 < shape.tagBits) (bank : Nat) :
    create bank shape confidenceBits usefulBits =
      .ok (blank bank shape confidenceBits usefulBits : TaggedTable P) := by
  simp only [create, hconfidence, huseful, FoldedHistory.supports, hlogSize, htagBits, hpos,
    decide_true, Bool.and_self, if_true]
  rfl

theorem Ladder.checkedBlank_eq {c : Config} (h : c.validate = .ok ()) (hroom : c.hasRoom = true) :
    checkedBlank c = some (blank c : Ladder P) := by
  obtain ⟨hconfidence, huseful, huseAlt⟩ := c.counters_of_validate h
  obtain ⟨hcounters, -⟩ := Bool.and_eq_true_iff.1 hroom
  have hsize : c.useAltBuckets * 2 % UInt64.size = c.useAltBuckets * 2 :=
    Nat.mod_eq_of_lt (lt_of_hasRoomFor hcounters)
  have hall : (c.tables.mapIdx fun bank shape =>
      (TaggedTable.create bank shape c.confidenceBits c.usefulBits :
        Except Precondition (TaggedTable P))).all (·.isOk) = true := by
    rw [List.all_eq_true]
    intro made hmade
    obtain ⟨bank, hbank, rfl⟩ := List.mem_mapIdx.1 hmade
    have hmem := List.getElem_mem hbank
    obtain ⟨hlogSize, htagBits⟩ := c.widths_of_validate h _ hmem
    have hpos := c.tagBits_pos_of_validate h _ hmem
    rw [TaggedTable.create_eq hconfidence huseful (by omega) (by omega) hpos bank]
    rfl
  simp [checkedBlank, hall, huseAlt, hsize, hcounters, guard, blank]

end Ladders

theorem SpeculativeHistory.exists_create {size pathBits longest : Nat} (hlongest : longest < size)
    (hpath : pathBits < 64) : ∃ h, create size pathBits longest = .ok h := by
  have hsize : 0 < size := by omega
  have hsupports : PathHistory.supports pathBits = true := decide_eq_true hpath
  refine ⟨⟨.zeros size hsize, .empty pathBits, longest, 0⟩, ?_⟩
  simp only [create, hlongest, if_true, HistoryRegister.zeros?, hsize, dif_pos, hsupports]
  rfl

/-! ## ITTAGE -/

namespace Ittage

/-- Make the predictor of a configuration that was validated, if all its parts exist. -/
def Config.checkedBuild (c : Config) : Option Ittage := do
  let ladder ← Ladder.checkedBlank c.ladder
  guard (HistoryRegister.hasRoomFor c.ladder.historyBufferBits)
  let history ← (SpeculativeHistory.create c.ladder.historyBufferBits c.ladder.pathBits
    c.ladder.longestHistory).toOption
  return ⟨c, ladder, history, .ofSeed (c.seed?.getD 0)⟩

/-- A valid configuration for which there is room can be built, and no check fails. -/
theorem Config.exists_build {c : Config} (hvalid : c.validate = .ok ())
    (hroom : c.ladder.hasRoom = true)
    (hword : c.ladder.longestHistory + c.ladder.maxInFlightBits < UInt64.size) :
    ∃ p, c.build = .ok p ∧ c.checkedBuild = some p := by
  have hladder := c.ladder_of_validate hvalid
  obtain ⟨-, hregister⟩ := Bool.and_eq_true_iff.1 hroom
  obtain ⟨hpath, hbuffer⟩ := c.ladder.path_and_buffer_of_validate hladder
  have hlongest := Ladder.Config.lt_of_checkHistoryBuffer hbuffer hword
  obtain ⟨history, hcreate⟩ :=
    SpeculativeHistory.exists_create (Nat.lt_of_add_right_lt hlongest) hpath
  refine ⟨⟨c, .blank c.ladder, history, .ofSeed (c.seed?.getD 0)⟩, ?_, ?_⟩
  · rw [build, hvalid, hroom, hcreate]
    rfl
  · rw [checkedBuild, Ladder.checkedBlank_eq hladder hroom, hregister, hcreate]
    rfl

end Ittage

/-! ## TAGE-SC-L -/

namespace TageScl

def Config.checkedBuild (c : Config) : Option TageScl := do
  let base ← Bimodal.checkedZero c.base
  let ladder ← Ladder.checkedBlank c.ladder
  let loops? ← c.loops?.mapM LoopPredictor.checkedBlank
  let corrector? ← c.corrector?.mapM Corrector.checkedBlank
  guard (HistoryRegister.hasRoomFor c.ladder.historyBufferBits)
  let history ← (SpeculativeHistory.create c.ladder.historyBufferBits c.ladder.pathBits
    c.longestHistory).toOption
  return ⟨c, ⟨base, ladder⟩, loops?, corrector?, history, .ofSeed (c.seed?.getD 0), {}⟩

theorem Config.exists_build {c : Config} (hvalid : c.validate = .ok ()) (hroom : c.hasRoom = true)
    (hword : c.longestHistory + c.ladder.maxInFlightBits < UInt64.size) :
    ∃ p, c.build = .ok p ∧ c.checkedBuild = some p := by
  obtain ⟨hladder, hcorrector⟩ := c.parts_of_validate hvalid
  obtain ⟨hladderRoom, hloopsRoom⟩ := c.parts_of_hasRoom hroom
  obtain ⟨-, hregister⟩ := Bool.and_eq_true_iff.1 hladderRoom
  obtain ⟨hpath, -⟩ := c.ladder.path_and_buffer_of_validate hladder
  have hlongest := Ladder.Config.lt_of_checkHistoryBuffer (c.buffer_of_validate hvalid) hword
  have hloops := mapM_eq_some fun loops h =>
    LoopPredictor.checkedBlank_eq (c.loops_of_validate hvalid h) (hloopsRoom loops h)
  have hcorrectors := mapM_eq_some fun corrector h =>
    Corrector.checkedBlank_eq (hcorrector corrector h)
  obtain ⟨history, hcreate⟩ :=
    SpeculativeHistory.exists_create (Nat.lt_of_add_right_lt hlongest) hpath
  refine ⟨⟨c, .blank c.base c.ladder, c.loops?.map .blank, c.corrector?.map .blank, history,
    .ofSeed (c.seed?.getD 0), {}⟩, ?_, ?_⟩
  · rw [build, hvalid, hroom, hcreate]
    rfl
  · rw [checkedBuild, Bimodal.checkedZero_eq (c.base_of_validate hvalid),
      Ladder.checkedBlank_eq hladder hladderRoom, hloops, hcorrectors, hregister, hcreate]
    rfl

end TageScl

end BranchPrediction
