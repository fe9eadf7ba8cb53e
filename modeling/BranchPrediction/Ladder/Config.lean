import BranchPrediction.Ladder.Geometric
import BranchPrediction.Table.Bimodal
import BranchPrediction.Table.Tagged

/-!
# Ladder configurations

The configuration of a ladder of tagged tables, the ways to make one, and its validation.  The
checks run in a fixed order and the first cause found is the one reported.
-/

namespace BranchPrediction

/-- The first place at which a list of lengths fails to increase: its index, the length before
it and the length itself. -/
def firstNonIncreasing (lengths : List Nat) : Option (Nat × Nat × Nat) :=
  go 1 lengths
where
  /-- The search from the element of index `i` on. -/
  go (i : Nat) : List Nat → Option (Nat × Nat × Nat)
    | a :: b :: rest => if b ≤ a then some (i, a, b) else go (i + 1) (b :: rest)
    | _ => none

/-- Reject lengths that do not strictly increase. -/
def checkIncreasing (lengths : List Nat) : Except ConfigError Unit :=
  match firstNonIncreasing lengths with
  | some (table, previous, length) => throw (.nonIncreasingHistory table previous length)
  | none => pure ()

namespace Ladder

/-- The configuration of a ladder of tagged tables. -/
structure Config where
  /-- The tables, from the shortest history to the longest. -/
  tables : List TableShape
  confidenceBits : Nat := 3
  usefulBits : Nat := 2
  /-- The number of history-length buckets that key the use-alt-on-new counters. -/
  useAltBuckets : Nat := 4
  useAltBits : Nat := 4
  /-- The number of commits between two agings. -/
  usefulResetPeriod : Nat := 1 <<< 18
  /-- The most tables that an allocation visits. -/
  maxAllocationScan : Nat := 3
  /-- Start the allocation scan one table further out, at random. -/
  allocationSkip : Bool := true
  pathBits : Nat := 27
  /-- The size of the circular history register. -/
  historyBufferBits : Nat := 4096
  /-- The history bits that branches in flight may insert.  The register must hold them beside
  the longest history. -/
  maxInFlightBits : Nat := 256
  deriving DecidableEq, Repr

namespace Config

/-- Tables with the given history lengths; the tags widen by one bit with every third table.  The
width of a tag is kept in one byte. -/
def widening (lengths : List Nat) (logSize tagBits : Nat) : Config where
  tables := lengths.mapIdx fun i length => ⟨length, logSize, (tagBits + i / 3) % UInt8.size⟩

/-- Tables whose history lengths grow geometrically from `least` to `greatest`. -/
def geometric (least greatest count logSize tagBits : Nat) : Config :=
  widening (geometricLengths least greatest count) logSize tagBits

/-- Tables with the given history lengths, all of the same size. -/
def ofLengths (lengths : List Nat) (logSize tagBits : Nat) : Config where
  tables := lengths.map fun length => ⟨length, logSize, tagBits⟩

/-- The twelve lengths that grow geometrically from 4 to 640. -/
def standardLengths : List Nat :=
  [4, 6, 10, 16, 25, 40, 64, 101, 160, 254, 403, 640]

/-- The standard direction ladder. -/
def standard : Config :=
  widening standardLengths 10 11

instance : Inhabited Config := ⟨standard⟩

def longestHistory (c : Config) : Nat :=
  (c.tables.map (·.historyLength)).foldl max 0

/-- There is room for the use-alt-on-new counters and for the history register, neither of which the
checks of a configuration bound from above. -/
def hasRoom (c : Config) : Bool :=
  hasRoomFor (c.useAltBuckets * 2) && HistoryRegister.hasRoomFor c.historyBufferBits

def totalEntries (c : Config) : Nat :=
  (c.tables.map (·.size)).foldr (· + ·) 0

def storageBits (c : Config) : Nat :=
  (c.tables.map fun t => t.size * (c.confidenceBits + c.usefulBits + t.tagBits)).foldr (· + ·) 0

/-- Reject an empty or an oversized table, and a tag that does not exist. -/
def checkTable (index : Nat) (t : TableShape) : Except ConfigError Unit := do
  checkLogSize (.taggedTable index) t.logSize
  checkWidth (.tag index) t.tagBits 31

/-- Check the tables from index `i` on. -/
def checkTables (i : Nat) : List TableShape → Except ConfigError Unit
  | [] => pure ()
  | t :: rest => do
    checkTable i t
    checkTables (i + 1) rest

/-- Reject a register that cannot hold `longest` bits of history beside the bits allowed in
flight.  The two are added as 64-bit words. -/
def checkHistoryBuffer (c : Config) (longest : Nat) : Except ConfigError Unit := do
  if c.maxInFlightBits = 0 then throw .zeroInFlight
  if c.historyBufferBits ≤ (longest + c.maxInFlightBits) % UInt64.size then
    throw (.bufferTooSmall c.historyBufferBits longest c.maxInFlightBits)

/-- Reject a ladder that cannot be built or cannot work. -/
def validate (c : Config) : Except ConfigError Unit := do
  if c.tables.isEmpty then throw (.emptyTable .ladder)
  checkIncreasing (c.tables.map (·.historyLength))
  if (c.tables.map (·.historyLength)).head? = some 0 then throw .zeroHistoryLength
  checkTables 0 c.tables
  checkWidth .confidenceCounter c.confidenceBits Counter.Range.maxBits
  checkWidth .usefulnessCounter c.usefulBits Counter.Range.maxBits
  checkWidth .useAltCounter c.useAltBits Counter.Range.maxBits
  if c.useAltBuckets = 0 then throw (.emptyTable .useAltTable)
  if c.usefulResetPeriod = 0 then throw .zeroResetPeriod
  if c.maxAllocationScan = 0 then throw .zeroAllocationScan
  if 64 ≤ c.pathBits then throw .pathTooLong
  c.checkHistoryBuffer c.longestHistory

end Config

end Ladder

end BranchPrediction
