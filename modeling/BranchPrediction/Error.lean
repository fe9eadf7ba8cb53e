/-!
# Errors

Three families of causes.  A `ConfigError` rejects a configuration before anything is built.  A
`ProtocolViolation` is a caller's mistake in the order of pipeline operations.  A `Precondition`
is a call that is not defined at all: a width out of range, an empty register, a record that does
not fit the predictor.  Saturation of a counter is never an error.

The wording of the first two is in `ConfigError.message` and `ProtocolViolation.message`.
-/

namespace BranchPrediction

inductive Part where
  | baseTable
  | baseCounter
  | ladder
  | taggedTable (index : Nat)
  | tag (index : Nat)
  | confidenceCounter
  | usefulnessCounter
  | useAltCounter
  | useAltTable
  | loopPredictor
  | loopTag
  | loopIteration
  | loopConfidence
  | loopAge
  | loopTrust
  | biasTable
  | historyTable
  | pathTable
  | correctorWeight
  | thresholdCounter
  deriving DecidableEq, Repr

def Part.label : Part → String
  | baseTable => "base component"
  | baseCounter => "base counter"
  | ladder => "tagged table ladder"
  | taggedTable index => s!"tagged table {index}"
  | tag index => s!"tag of table {index}"
  | confidenceCounter => "tagged confidence counter"
  | usefulnessCounter => "usefulness counter"
  | useAltCounter => "use-alt-on-new counter"
  | useAltTable => "use-alt-on-new table"
  | loopPredictor => "loop predictor"
  | loopTag => "loop tag"
  | loopIteration => "loop iteration counter"
  | loopConfidence => "loop confidence counter"
  | loopAge => "loop age counter"
  | loopTrust => "loop meta counter"
  | biasTable => "corrector bias table"
  | historyTable => "corrector history table"
  | pathTable => "corrector path table"
  | correctorWeight => "corrector weight"
  | thresholdCounter => "corrector threshold counter"

/-- The unconditional transfers that insert a configurable number of history bits. -/
inductive TransferKind where
  | indirectJump
  | indirectCall
  | directCall
  deriving DecidableEq, Repr

def TransferKind.label : TransferKind → String
  | indirectJump => "indirect jump"
  | indirectCall => "indirect call"
  | directCall => "direct call"

/-- Why a configuration is rejected. -/
inductive ConfigError where
  /-- History lengths must grow strictly from table to table. -/
  | nonIncreasingHistory (table previous length : Nat)
  | emptyTable (part : Part)
  | zeroWidth (part : Part)
  | tooWide (part : Part) (bits most : Nat)
  /-- The buffer cannot hold the longest history beside the bits allowed in flight. -/
  | bufferTooSmall (size longest inFlight : Nat)
  | tableTooLarge (part : Part)
  | loopTablesTooLarge
  | zeroHistoryLength
  | zeroResetPeriod
  | zeroAllocationScan
  | pathTooLong
  | zeroInFlight
  | nonPositiveThreshold
  | conditionalBits
  | tooManyBits (kind : TransferKind) (bits : Nat)
  | noThreads
  /-- The text is not a document of the expected shape. -/
  | malformed
  deriving DecidableEq, Repr

namespace ConfigError

/-- The causes that are reported under a general heading, with what each one says. -/
def detail? : ConfigError → Option String
  | tableTooLarge part => some s!"{part.label} is too large"
  | loopTablesTooLarge => some "loop predictor tables are too large"
  | zeroHistoryLength => some "tagged tables need a non-zero history length"
  | zeroResetPeriod => some "useful reset period must be non-zero"
  | zeroAllocationScan => some "allocation scan bound must be non-zero"
  | pathTooLong => some "path history is limited to 63 bits"
  | zeroInFlight => some "in-flight history bound must be non-zero"
  | nonPositiveThreshold => some "corrector threshold must be positive"
  | conditionalBits => some "conditional branches insert at most one history bit"
  | tooManyBits kind bits => some s!"{kind.label} inserts {bits} history bits (at most 64)"
  | noThreads => some "a predictor unit needs at least one thread"
  | malformed => some "malformed document"
  | _ => none

def message : ConfigError → String
  | nonIncreasingHistory table previous length =>
    s!"history length ladder must be strictly increasing: table {table} has length {length} " ++
      s!"after {previous}"
  | emptyTable part => s!"{part.label} has zero entries"
  | zeroWidth part => s!"{part.label} has a counter width of zero"
  | tooWide part bits most =>
    s!"{part.label} has a counter width of {bits} bits (at most {most} supported)"
  | bufferTooSmall size longest inFlight =>
    s!"history buffer of {size} bits cannot hold the longest history ({longest} bits) " ++
      s!"and {inFlight} speculative bits"
  | cause => "invalid configuration: " ++ cause.detail?.getD ""

end ConfigError

/-- A violation of the order in which a pipeline may predict, update, commit and squash. -/
inductive ProtocolViolation where
  /-- The contribution to be undone is not the youngest one still applied. -/
  | outOfOrderRollback (expected found : Nat)
  | unknownThread (thread : Nat)
  /-- The history buffer cannot take the bits without losing history that is still read. -/
  | historyOverflow (inFlight capacity : Nat)
  deriving DecidableEq, Repr

def ProtocolViolation.message : ProtocolViolation → String
  | outOfOrderRollback expected found =>
    s!"history rollback out of order: expected write position {expected}, found {found}"
  | unknownThread thread => s!"no predictor state for hardware thread {thread}"
  | historyOverflow inFlight capacity =>
    s!"{inFlight} speculative history bits in flight exceed the {capacity}-bit buffer"

/-- What a call must satisfy to be defined. -/
inductive Precondition where
  /-- A counter has between 1 and 15 bits. -/
  | counterWidth
  /-- There is room for the tables and the history register of a configuration. -/
  | capacity
  /-- A history register holds at least one bit. -/
  | registerSize
  /-- A folded history is narrower than a word. -/
  | foldWidth
  /-- A path history is narrower than a word. -/
  | pathWidth
  /-- The longest history read is shorter than the register. -/
  | historyWindow
  /-- One update inserts at most one word of history. -/
  | updateWidth
  /-- A table, a slot or a record belongs to the predictor that it is used with. -/
  | foreignRecord
  deriving DecidableEq, Repr

/-- Refuse a call that does not satisfy a precondition. -/
def Precondition.require (cause : Precondition) (satisfied : Bool) : Except Precondition Unit :=
  if satisfied then pure () else throw cause

inductive PredictorError where
  | config (cause : ConfigError)
  | protocol (cause : ProtocolViolation)
  | precondition (cause : Precondition)
  deriving DecidableEq, Repr

end BranchPrediction
