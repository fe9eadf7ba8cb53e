import BranchPrediction.Error
import BranchPrediction.History.Fold
import BranchPrediction.History.Path

/-!
# Speculative history

The history of one hardware thread: the register, the path, and the number of bits that branches
in flight have inserted.  A branch *appends* its bits and keeps a checkpoint; the checkpoint is
later *rolled back*, which must happen youngest first, or *retired*.

Each operation that can fail comes in two parts: a check that names the violation
(`appendError?`, `disorder?`) and a total operation for the case that there is none.  The folded
views of the register are passed along, so that they stay in step bit by bit.
-/

namespace BranchPrediction

/-- The history before a branch inserted its bits, and the bits that it overwrote. -/
structure Checkpoint where
  /-- The write position before the update. -/
  start : Nat
  count : Nat
  /-- The overwritten bits, in the order of the pushes, the first one lowest. -/
  overwritten : UInt64
  /-- The path before the update. -/
  path : PathHistory
  deriving DecidableEq, Repr

/-- The write position, in a register of `size` bits, while the contribution is the youngest one
still applied. -/
def Checkpoint.finish (c : Checkpoint) (size : Nat) : Nat :=
  (c.start + size - c.count % size) % size

/-- Global and path history of one hardware thread. -/
structure SpeculativeHistory where
  register : HistoryRegister
  path : PathHistory
  /-- The longest history that anything reads from the register. -/
  longest : Nat
  /-- The bits inserted by branches that have not committed. -/
  inFlight : Nat
  deriving DecidableEq, Repr

namespace SpeculativeHistory

variable {α : Type} [HistoryView α]

/-- The empty history.  The longest window must leave room for at least one more bit. -/
def create (size pathBits longest : Nat) : Except Precondition SpeculativeHistory := do
  unless longest < size do throw .historyWindow
  let some register := HistoryRegister.zeros? size | throw .registerSize
  unless PathHistory.supports pathBits do throw .pathWidth
  return ⟨register, .empty pathBits, longest, 0⟩

def bitOf (word : UInt64) (i : Nat) : Bool :=
  (word >>> UInt64.ofNat i) &&& 1 = 1

/-- The word with bit `i` set or not. -/
def wordOf (b : Bool) (i : Nat) : UInt64 :=
  b.toUInt64 <<< UInt64.ofNat i

/-- Push one bit and bring the views up to date. -/
def pushBit (b : Bool) (register : HistoryRegister) (views : α) : HistoryRegister × α :=
  let register := register.push b
  let views := HistoryView.pushed register views
  (register, views)

/-- Bring the views back and remove the newest bit, restoring the one that it overwrote. -/
def unpushBit (overwritten : Bool) (register : HistoryRegister) (views : α) :
    HistoryRegister × α :=
  let views := HistoryView.popping register views
  (register.unpush overwritten, views)

/-- Push the `count` lowest bits of a word, lowest first, and collect the overwritten bits. -/
def pushBits (bits : UInt64) : Nat → HistoryRegister → α → UInt64 × HistoryRegister × α
  | 0, register, views => (0, register, views)
  | count + 1, register, views =>
    let (overwritten, register, views) := pushBits bits count register views
    let lost := wordOf register.oldest count
    let (register, views) := pushBit (bitOf bits count) register views
    (overwritten ||| lost, register, views)

/-- Remove the newest `count` bits, newest first, restoring the bits that they overwrote. -/
def unpushBits (overwritten : UInt64) : Nat → HistoryRegister → α → HistoryRegister × α
  | 0, register, views => (register, views)
  | count + 1, register, views =>
    let (register, views) := unpushBit (bitOf overwritten count) register views
    unpushBits overwritten count register views

/-- The violation, if any, of inserting `count` more bits: together with the longest window they
must stay below the size of the register. -/
def overflow? (h : SpeculativeHistory) (count : Nat) : Option ProtocolViolation :=
  if h.register.size ≤ h.inFlight + count + h.longest then
    some (.historyOverflow (h.inFlight + count) (h.register.size - h.longest - 1))
  else none

/-- The reason, if any, not to insert `count` more bits: more than a word, or an overflow. -/
def appendError? (h : SpeculativeHistory) (count : Nat) : Option PredictorError :=
  if 64 < count then some (.precondition .updateWidth)
  else (h.overflow? count).map .protocol

/-- Shift the `count` lowest bits of a word into the history, and the branch's address into the
path if it inserts any bit. -/
def append (h : SpeculativeHistory) (bits : UInt64) (count : Nat) (pc : UInt64) (views : α) :
    Checkpoint × SpeculativeHistory × α :=
  match h with
  | ⟨register, path, longest, inFlight⟩ =>
    let start := register.start
    let (overwritten, register, views) := pushBits bits count register views
    let extended := if count = 0 then path else path.extend pc
    (⟨start, count, overwritten, path⟩, ⟨register, extended, longest, inFlight + count⟩, views)

/-- The violation, if any, of undoing a contribution: it must be the youngest one applied. -/
def disorder? (h : SpeculativeHistory) (c : Checkpoint) : Option ProtocolViolation :=
  let expected := c.finish h.register.size
  if h.register.start = expected then none
  else some (.outOfOrderRollback expected h.register.start)

/-- Undo the contribution that a checkpoint describes. -/
def rollback (h : SpeculativeHistory) (c : Checkpoint) (views : α) : SpeculativeHistory × α :=
  match h with
  | ⟨register, _, longest, inFlight⟩ =>
    let (register, views) := unpushBits c.overwritten c.count register views
    (⟨register, c.path, longest, inFlight - c.count⟩, views)

/-- The branch that made a contribution has committed: its bits are no longer speculative. -/
def retire (h : SpeculativeHistory) (c : Checkpoint) : SpeculativeHistory :=
  { h with inFlight := h.inFlight - c.count }

def clear (h : SpeculativeHistory) : SpeculativeHistory :=
  { h with register := h.register.clear, path := h.path.clear, inFlight := 0 }

end SpeculativeHistory

end BranchPrediction
