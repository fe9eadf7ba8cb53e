import BranchPrediction.History.Register
import BranchPrediction.Word

/-!
# Folded history

A folded history keeps the XOR fold of the newest `window` history bits into `width` bits without
reading them all.  On each push the fold rotates by one, the new bit enters at position 0 and the
bit that leaves the window is taken out at position `window % width`.  The step is undone exactly
while the pushed bit is still in the register.

`HistoryView` is the interface of everything that keeps such folds in step with a register.
-/

namespace BranchPrediction

/-- A component that keeps folded views of a history register. -/
class HistoryView (α : Type) where
  /-- Account for the bit that was just pushed into the register. -/
  pushed : HistoryRegister → α → α
  /-- Undo the newest bit of the register, before it is removed. -/
  popping : HistoryRegister → α → α

instance {α : Type} [HistoryView α] : HistoryView (Array α) where
  pushed r views := views.map (HistoryView.pushed r)
  popping r views := views.map (HistoryView.popping r)

instance {α : Type} [HistoryView α] : HistoryView (Option α) where
  pushed r view := view.map (HistoryView.pushed r)
  popping r view := view.map (HistoryView.popping r)

instance {α β : Type} [HistoryView α] [HistoryView β] : HistoryView (α × β) where
  pushed r views := (HistoryView.pushed r views.1, HistoryView.pushed r views.2)
  popping r views := (HistoryView.popping r views.1, HistoryView.popping r views.2)

/-- The fold of the newest `window` bits into `width` bits. -/
structure FoldedHistory where
  width : Nat
  window : Nat
  value : UInt64
  deriving DecidableEq, Repr

namespace FoldedHistory

/-- The fold of an all-zero history. -/
def zero (width window : Nat) : FoldedHistory :=
  ⟨width, window, 0⟩

/-- Whether a fold of this width fits a word with room to rotate. -/
def supports (width : Nat) : Bool :=
  width < 64

/-- Rotate the `width` lowest bits of a word to the left by one. -/
def rotateLeft (width : Nat) (x : UInt64) : UInt64 :=
  ((x <<< 1) ||| (x >>> UInt64.ofNat (width - 1))) &&& lowMask width

/-- Rotate the `width` lowest bits of a word to the right by one. -/
def rotateRight (width : Nat) (x : UInt64) : UInt64 :=
  ((x >>> 1) ||| ((x &&& 1) <<< UInt64.ofNat (width - 1))) &&& lowMask width

/-- The bit that enters the window and the bit that leaves it, at their positions in the fold. -/
def boundary (f : FoldedHistory) (r : HistoryRegister) : UInt64 :=
  (r.bit 0).toUInt64 ^^^ ((r.bit f.window).toUInt64 <<< UInt64.ofNat (f.window % f.width))

/-- A fold of no bits, or into no bits, is always zero. -/
def isTrivial (f : FoldedHistory) : Bool :=
  f.width = 0 || f.window = 0

/-- Account for the bit that was just pushed into the register. -/
def pushed (r : HistoryRegister) (f : FoldedHistory) : FoldedHistory :=
  if f.isTrivial then f
  else { f with value := rotateLeft f.width f.value ^^^ f.boundary r }

/-- Undo `pushed` for the newest bit of the register, before it is removed. -/
def popping (r : HistoryRegister) (f : FoldedHistory) : FoldedHistory :=
  if f.isTrivial then f
  else { f with value := rotateRight f.width (f.value ^^^ f.boundary r) }

def clear (f : FoldedHistory) : FoldedHistory :=
  { f with value := 0 }

instance : HistoryView FoldedHistory := ⟨pushed, popping⟩

end FoldedHistory

end BranchPrediction
