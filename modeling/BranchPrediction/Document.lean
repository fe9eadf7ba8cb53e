import BranchPrediction.Ittage.Config
import BranchPrediction.Json.Reader
import BranchPrediction.Json.Record
import BranchPrediction.TageScl.Config

/-!
# Configuration documents

The JSON form of each configuration: the names of its fields, their formats, and the defaults of
those that are missing.  A nested configuration that is given takes its missing fields from its
own defaults, not from the configuration around it.
-/

namespace BranchPrediction

open Json (Format Field)

def Bimodal.Config.format : Format Bimodal.Config :=
  Json.recordFormat
    [Format.byte.field "log_size" (·.logSize) ({ · with logSize := · }),
     Format.byte.field "ctr_bits" (·.counterBits) ({ · with counterBits := · })]
    {}

/-- The fields of a tagged table, all of which must be given. -/
def TableShape.format : Format TableShape :=
  Json.fullRecordFormat
    [Format.size.field "history_len" (·.historyLength) ({ · with historyLength := · }),
     Format.byte.field "log_size" (·.logSize) ({ · with logSize := · }),
     Format.byte.field "tag_bits" (·.tagBits) ({ · with tagBits := · })]
    ⟨0, 0, 0⟩

def Ladder.Config.format : Format Ladder.Config :=
  Json.recordFormat
    [TableShape.format.list.field "comp" (·.tables) ({ · with tables := · }),
     Format.byte.field "ctr_bits" (·.confidenceBits) ({ · with confidenceBits := · }),
     Format.byte.field "useful_bits" (·.usefulBits) ({ · with usefulBits := · }),
     Format.size.field "use_alt_buckets" (·.useAltBuckets) ({ · with useAltBuckets := · }),
     Format.byte.field "use_alt_bits" (·.useAltBits) ({ · with useAltBits := · }),
     Format.size.field "useful_reset_period" (·.usefulResetPeriod)
       ({ · with usefulResetPeriod := · }),
     Format.size.field "max_alloc_scan" (·.maxAllocationScan) ({ · with maxAllocationScan := · }),
     Format.bool.field "alloc_skip" (·.allocationSkip) ({ · with allocationSkip := · }),
     Format.byte.field "path_bits" (·.pathBits) ({ · with pathBits := · }),
     Format.size.field "history_buffer_bits" (·.historyBufferBits)
       ({ · with historyBufferBits := · }),
     Format.size.field "max_in_flight_bits" (·.maxInFlightBits) ({ · with maxInFlightBits := · })]
    .standard

def LoopPredictor.Config.format : Format LoopPredictor.Config :=
  Json.recordFormat
    [Format.byte.field "log_sets" (·.logSets) ({ · with logSets := · }),
     Format.size.field "ways" (·.ways) ({ · with ways := · }),
     Format.byte.field "tag_bits" (·.tagBits) ({ · with tagBits := · }),
     Format.byte.field "iter_bits" (·.iterationBits) ({ · with iterationBits := · }),
     Format.byte.field "conf_bits" (·.confidenceBits) ({ · with confidenceBits := · }),
     Format.byte.field "age_bits" (·.ageBits) ({ · with ageBits := · }),
     Format.byte.field "meta_log_size" (·.trustLogSize) ({ · with trustLogSize := · }),
     Format.byte.field "meta_bits" (·.trustBits) ({ · with trustBits := · })]
    {}

def Corrector.Config.format : Format Corrector.Config :=
  Json.recordFormat
    [Format.byte.field "bias_log_size" (·.biasLogSize) ({ · with biasLogSize := · }),
     Format.size.list.field "gehl_lengths" (·.historyLengths) ({ · with historyLengths := · }),
     Format.byte.field "gehl_log_size" (·.historyLogSize) ({ · with historyLogSize := · }),
     Format.byte.field "path_log_size" (·.pathLogSize) ({ · with pathLogSize := · }),
     Format.byte.field "ctr_bits" (·.weightBits) ({ · with weightBits := · }),
     Format.int32.field "threshold" (·.threshold) ({ · with threshold := · }),
     Format.byte.field "threshold_ctr_bits" (·.thresholdBits) ({ · with thresholdBits := · }),
     Format.int32.field "low_conf_margin" (·.lowMargin) ({ · with lowMargin := · }),
     Format.int32.field "medium_conf_margin" (·.mediumMargin) ({ · with mediumMargin := · })]
    {}

def TageScl.Config.format : Format TageScl.Config :=
  Json.recordFormat
    [Bimodal.Config.format.field "base" (·.base) ({ · with base := · }),
     Ladder.Config.format.field "tage" (·.ladder) ({ · with ladder := · }),
     LoopPredictor.Config.format.option.field "loops" (·.loops?) ({ · with loops? := · }),
     Corrector.Config.format.option.field "sc" (·.corrector?) ({ · with corrector? := · }),
     Format.bool.field "taken_only_history" (·.takenOnlyHistory)
       ({ · with takenOnlyHistory := · }),
     Format.word.option.field "seed" (·.seed?) ({ · with seed? := · })]
    {}

def Ittage.Config.format : Format Ittage.Config :=
  Json.recordFormat
    [Ladder.Config.format.field "tage" (·.ladder) ({ · with ladder := · }),
     Format.size.field "hist_bits_conditional" (·.conditionalBits)
       ({ · with conditionalBits := · }),
     Format.size.field "hist_bits_ind_branch" (·.indirectJumpBits)
       ({ · with indirectJumpBits := · }),
     Format.size.field "hist_bits_ind_call" (·.indirectCallBits)
       ({ · with indirectCallBits := · }),
     Format.size.field "hist_bits_call" (·.directCallBits) ({ · with directCallBits := · }),
     Format.word.option.field "seed" (·.seed?) ({ · with seed? := · })]
    {}

/-- Read a configuration from a document. -/
def Json.Format.parse {α : Type} (format : Format α) (text : String) : Except ConfigError α :=
  match (Json.read? text).bind format.read? with
  | some config => .ok config
  | none => .error .malformed

/-- The name of each branch kind in a document. -/
def BranchKind.label : BranchKind → String
  | directBranch => "DirectBranch"
  | directJump => "DirectJump"
  | indirectJump => "IndirectJump"
  | directCall => "DirectCall"
  | indirectCall => "IndirectCall"
  | procedureReturn => "Return"

def BranchKind.all : List BranchKind :=
  [directBranch, directJump, indirectJump, directCall, indirectCall, procedureReturn]

/-- The kind of a name. -/
def BranchKind.ofLabel? (label : String) : Option BranchKind :=
  all.find? (·.label = label)

/-- Branch kinds, written by name.  A name with an empty content is read too. -/
def BranchKind.format : Format BranchKind where
  write kind := .str kind.label
  read?
    | .string (some label) => ofLabel? label
    | .object [(some label, .null)] => ofLabel? label
    | _ => none

end BranchPrediction
