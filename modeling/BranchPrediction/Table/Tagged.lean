import BranchPrediction.Error
import BranchPrediction.History.Fold
import BranchPrediction.History.Path
import BranchPrediction.Table.Entry

/-!
# Tagged tables

A tagged table holds `2 ^ logSize` entries.  Index and tag of a branch are hashes of its address
with folds of the newest `historyLength` bits of global history and, for the index, with a slice
of path history.  The two folds in the tag differ in width by one, so that they do not cancel.
-/

namespace BranchPrediction

/-- The configuration of one tagged table. -/
structure TableShape where
  /-- The number of newest history bits hashed into index and tag. -/
  historyLength : Nat
  /-- The binary logarithm of the number of entries. -/
  logSize : Nat
  tagBits : Nat
  deriving DecidableEq, Repr

def TableShape.size (shape : TableShape) : Nat :=
  1 <<< shape.logSize

/-- A tagged table with the folds of history that its hashes read. -/
structure TaggedTable (P : Type) where
  shape : TableShape
  /-- The position among its sister tables; 0 has the shortest history. -/
  bank : Nat
  entries : Array (TaggedEntry P)
  indexFold : FoldedHistory
  tagFold : FoldedHistory
  /-- The fold that is one bit narrower than the tag. -/
  narrowFold : FoldedHistory
  entries_size : entries.size = shape.size

namespace TaggedTable

variable {P : Type}

/-- The table in which no entry was ever allocated. -/
def blank [Payload P] (bank : Nat) (shape : TableShape) (confidenceBits usefulBits : Nat) :
    TaggedTable P where
  shape := shape
  bank := bank
  entries := Array.replicate shape.size
    (.blank (Payload.confidenceRange P confidenceBits) (.unsigned usefulBits))
  indexFold := .zero shape.logSize shape.historyLength
  tagFold := .zero shape.tagBits shape.historyLength
  narrowFold := .zero (shape.tagBits - 1) shape.historyLength
  entries_size := by simp

/-- The table in which no entry was ever allocated, if its counters and folds exist. -/
def create [Payload P] (bank : Nat) (shape : TableShape) (confidenceBits usefulBits : Nat) :
    Except Precondition (TaggedTable P) := do
  unless Counter.Range.supports confidenceBits && Counter.Range.supports usefulBits do
    throw .counterWidth
  unless FoldedHistory.supports shape.logSize && FoldedHistory.supports shape.tagBits
      && 0 < shape.tagBits do
    throw .foldWidth
  return blank bank shape confidenceBits usefulBits

theorem size_pos (t : TaggedTable P) : 0 < t.entries.size := by
  rw [t.entries_size, TableShape.size, Nat.one_shiftLeft]
  exact Nat.two_pow_pos _

/-- The entry at an index, which is taken modulo the size of the table. -/
@[inline]
def entry (t : TaggedTable P) (index : Nat) : TaggedEntry P :=
  have := Nat.mod_lt index t.size_pos
  t.entries[index % t.entries.size]

/-- Change the entry at an index, which is taken modulo the size of the table. -/
def modifyEntry (t : TaggedTable P) (index : Nat) (f : TaggedEntry P → TaggedEntry P) :
    TaggedTable P :=
  match t with
  | ⟨shape, bank, entries, indexFold, tagFold, narrowFold, entries_size⟩ =>
    ⟨shape, bank, entries.modify (index % entries.size) f, indexFold, tagFold, narrowFold,
      by simpa using entries_size⟩

def mapEntries (t : TaggedTable P) (f : TaggedEntry P → TaggedEntry P) : TaggedTable P :=
  match t with
  | ⟨shape, bank, entries, indexFold, tagFold, narrowFold, entries_size⟩ =>
    ⟨shape, bank, entries.map f, indexFold, tagFold, narrowFold, by simpa using entries_size⟩

/-- The entry at an index, if it answers for the tag. -/
def lookup [Payload P] (t : TaggedTable P) (slot : Slot) : Option (TaggedEntry P) :=
  let e := t.entry slot.index
  if e.isMatch slot.tag then some e else none

/-- The amount by which the address is shifted before it is hashed with itself. -/
def hashShift (t : TaggedTable P) : Nat :=
  (t.shape.logSize - t.bank) + (t.bank - t.shape.logSize) + 1

/-- Hash address, folded history and path history into an index. -/
def index (t : TaggedTable P) (pc : UInt64) (path : PathHistory) : Nat :=
  let slice := path.newest t.shape.historyLength
  let hash := pc ^^^ (pc >>> UInt64.ofNat t.hashShift) ^^^ t.indexFold.value
    ^^^ foldBits slice t.shape.logSize
  (hash &&& lowMask t.shape.logSize).toNat

/-- Hash address and folded history into a tag.  A tag is kept in 32 bits. -/
def tag (t : TaggedTable P) (pc : UInt64) : Nat :=
  let hash := pc ^^^ t.tagFold.value ^^^ (t.narrowFold.value <<< 1)
  (hash &&& lowMask t.shape.tagBits).toUInt32.toNat

def slot (t : TaggedTable P) (pc : UInt64) (path : PathHistory) : Slot :=
  ⟨t.index pc path, t.tag pc⟩

/-- Halve the usefulness of every entry. -/
def age (t : TaggedTable P) : TaggedTable P :=
  t.mapEntries TaggedEntry.age

def mapFolds (t : TaggedTable P) (f : FoldedHistory → FoldedHistory) : TaggedTable P :=
  match t with
  | ⟨shape, bank, entries, indexFold, tagFold, narrowFold, entries_size⟩ =>
    ⟨shape, bank, entries, f indexFold, f tagFold, f narrowFold, entries_size⟩

def reset [Payload P] (t : TaggedTable P) : TaggedTable P :=
  (t.mapEntries TaggedEntry.invalidate).mapFolds FoldedHistory.clear

instance : HistoryView (TaggedTable P) where
  pushed r t := t.mapFolds (FoldedHistory.pushed r)
  popping r t := t.mapFolds (FoldedHistory.popping r)

end TaggedTable

end BranchPrediction
