import BranchPrediction.Ladder.Config
import BranchPrediction.Ladder.Stats

/-!
# Ladders of tagged tables

A ladder is a row of tagged tables with growing history lengths; table 0 has the shortest.  It
holds what direction and target predictors share: the search for the longest match and its
alternate, the counters that decide whether a fresh entry defers to the alternate, allocation and
aging.

The slots of a branch are computed once, when it is predicted, and kept in its record, so that a
commit touches exactly the entries that the prediction saw.
-/

namespace BranchPrediction

/-- A ladder of tagged tables. -/
structure Ladder (P : Type) where
  config : Ladder.Config
  tables : Array (TaggedTable P)
  /-- The use-alt-on-new counters. -/
  useAlt : Array Counter
  stats : LadderStats

namespace Ladder

variable {P : Type}

/-- The ladder in which nothing was ever allocated. -/
def blank [Payload P] (config : Config) : Ladder P where
  config := config
  tables := (config.tables.mapIdx fun bank shape =>
    TaggedTable.blank bank shape config.confidenceBits config.usefulBits).toArray
  useAlt := Array.replicate (config.useAltBuckets * 2) (.zero (.signed config.useAltBits))
  stats := .zero config.tables.length

def size (l : Ladder P) : Nat :=
  l.tables.size

/-- The slots of a branch, one for each table. -/
def slots (l : Ladder P) (pc : UInt64) (path : PathHistory) : Array Slot :=
  l.tables.map fun t => t.slot pc path

/-- One slot is given for each table. -/
def fits (l : Ladder P) (slots : Array Slot) : Bool :=
  slots.size = l.size

def hasBank (l : Ladder P) (bank? : Option Nat) : Bool :=
  bank?.all (· < l.size)

/-- The table of this number answers for its slot. -/
def isMatch [Payload P] (l : Ladder P) (slots : Array Slot) (bank : Nat) : Bool :=
  match l.tables[bank]?, slots[bank]? with
  | some t, some slot => (t.lookup slot).isSome
  | _, _ => false

/-- The tables that answer for their slots, from the longest history down. -/
def hits [Payload P] (l : Ladder P) (slots : Array Slot) : List Nat :=
  (List.range l.size).reverse.filter (l.isMatch slots)

/-- The longest match and the next longest one. -/
def findMatches [Payload P] (l : Ladder P) (slots : Array Slot) : Option Nat × Option Nat :=
  match l.hits slots with
  | [] => (none, none)
  | [hit] => (some hit, none)
  | hit :: alt :: _ => (some hit, some alt)

/-- The entry of a table at its slot. -/
def entry? (l : Ladder P) (slots : Array Slot) (bank : Nat) : Option (TaggedEntry P) :=
  match l.tables[bank]?, slots[bank]? with
  | some t, some slot => some (t.entry slot.index)
  | _, _ => none

/-- Change the entry of a table at its slot. -/
def modifyEntry (l : Ladder P) (slots : Array Slot) (bank : Nat)
    (f : TaggedEntry P → TaggedEntry P) : Ladder P :=
  match slots[bank]? with
  | none => l
  | some slot =>
    match l with
    | ⟨config, tables, useAlt, stats⟩ =>
      ⟨config, tables.modify bank (·.modifyEntry slot.index f), useAlt, stats⟩

def modifyStats (l : Ladder P) (f : LadderStats → LadderStats) : Ladder P :=
  match l with
  | ⟨config, tables, useAlt, stats⟩ => ⟨config, tables, useAlt, f stats⟩

/-- The use-alt-on-new counter for a longest match: a coarse bucket of the table, and one bit
that describes the branch.  The product is one of words. -/
def useAltIndex (l : Ladder P) (bank : Nat) (conditional : Bool) : Nat :=
  bank * l.config.useAltBuckets % UInt64.size / l.size * 2 + conditional.toNat

/-- A pseudo-new entry of this table should defer to the alternate prediction. -/
def prefersAlt (l : Ladder P) (bank : Nat) (conditional : Bool) : Bool :=
  match l.useAlt[l.useAltIndex bank conditional]? with
  | some c => 0 ≤ c.value
  | none => false

def modifyUseAlt (l : Ladder P) (index : Nat) (f : Counter → Counter) : Ladder P :=
  match l with
  | ⟨config, tables, useAlt, stats⟩ => ⟨config, tables, useAlt.modify index f, stats⟩

/-- Train the counter that decides whether to defer to the alternate prediction. -/
def trainUseAlt (l : Ladder P) (bank : Nat) (conditional altCorrect : Bool) : Ladder P :=
  l.modifyUseAlt (l.useAltIndex bank conditional) (·.step altCorrect)

/-- Train the usefulness of the entry of a table at its slot. -/
def trainUseful (l : Ladder P) (slots : Array Slot) (bank : Nat) (useful : Bool) : Ladder P :=
  l.modifyEntry slots bank (·.stepUseful useful)

/-- The tables that an allocation visits: those past the longest match, one further out if told
to skip, and at most as many as configured.  There are none past the last table. -/
def candidates (l : Ladder P) (hit? : Option Nat) (skip : Bool) : List Nat :=
  let first := match hit? with
    | some bank => bank + 1
    | none => 0
  if l.size ≤ first then []
  else
    let start := if skip then min (first + 1) (l.size - 1) else first
    List.range' start (min l.config.maxAllocationScan (l.size - start))

/-- Overwrite the first candidate of no usefulness, and take one from the usefulness of those
before it. -/
def allocateAmong (slots : Array Slot) (confidence : Int) (payload : P) :
    List Nat → Ladder P → Ladder P × Option Nat
  | [], l => (l, none)
  | bank :: rest, l =>
    match l.entry? slots bank, slots[bank]? with
    | some e, some slot =>
      if e.useful.value = 0 then
        (l.modifyEntry slots bank (·.allocate slot.tag confidence payload), some bank)
      else
        allocateAmong slots confidence payload rest (l.trainUseful slots bank false)
    | _, _ => allocateAmong slots confidence payload rest l

/-- Try to allocate an entry in a table with a longer history than the longest match, and answer
the table that received it.  Nothing is counted when there is no such table. -/
def allocate (l : Ladder P) (slots : Array Slot) (hit? : Option Nat) (skip : Bool)
    (payload : P) (confidence : Int) : Ladder P × Option Nat :=
  match l.candidates hit? skip with
  | [] => (l, none)
  | bank :: rest =>
    match allocateAmong slots confidence payload (bank :: rest) l with
    | (l, some received) =>
      (l.modifyStats fun s => { s with allocations := s.allocations + 1 }, some received)
    | (l, none) =>
      (l.modifyStats fun s => { s with failedAllocations := s.failedAllocations + 1 }, none)

/-- Halve the usefulness of every entry. -/
def age (l : Ladder P) : Ladder P :=
  match l with
  | ⟨config, tables, useAlt, stats⟩ => ⟨config, tables.map TaggedTable.age, useAlt, stats⟩

/-- Count one commit, and age the entries at the end of each period. -/
def tick (l : Ladder P) : Ladder P :=
  let l := l.modifyStats fun s => { s with commits := s.commits + 1 }
  if l.stats.commits % l.config.usefulResetPeriod = 0 then
    l.age.modifyStats fun s => { s with agings := s.agings + 1 }
  else l

def record (l : Ladder P) (source : ProviderSource) (hit? : Option Nat) (isCorrect : Bool) :
    Ladder P :=
  l.modifyStats (·.record source hit? isCorrect)

/-- Invalidate every entry, forget the history and set counters and statistics to zero. -/
def reset [Payload P] (l : Ladder P) : Ladder P :=
  match l with
  | ⟨config, tables, useAlt, _⟩ =>
    ⟨config, tables.map TaggedTable.reset, useAlt.map Counter.reset, .zero tables.size⟩

instance : HistoryView (Ladder P) where
  pushed r l :=
    match l with
    | ⟨config, tables, useAlt, stats⟩ => ⟨config, HistoryView.pushed r tables, useAlt, stats⟩
  popping r l :=
    match l with
    | ⟨config, tables, useAlt, stats⟩ => ⟨config, HistoryView.popping r tables, useAlt, stats⟩

end Ladder

end BranchPrediction
