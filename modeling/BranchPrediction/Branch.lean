/-!
# Branches

A branch has a *direction*, and the instruction that makes it has a *kind*.  The kind decides how
many bits the branch contributes to global history and whether it trains the direction tables or
the target tables.  A `Branch` is what the pipeline knows of one dynamic branch: where it is, what
it is, which way it went and where to.
-/

namespace BranchPrediction

/-- The direction of a branch. -/
inductive Direction where
  | notTaken
  | taken
  deriving DecidableEq, Repr, Inhabited

namespace Direction

/-- The direction that a bit of history stands for. -/
def ofBool : Bool → Direction
  | true => taken
  | false => notTaken

def isTaken : Direction → Bool
  | taken => true
  | notTaken => false

def opposite : Direction → Direction
  | taken => notTaken
  | notTaken => taken

@[simp]
theorem isTaken_ofBool (b : Bool) : (ofBool b).isTaken = b := by
  cases b <;> rfl

@[simp]
theorem ofBool_isTaken (d : Direction) : ofBool d.isTaken = d := by
  cases d <;> rfl

@[simp]
theorem opposite_opposite (d : Direction) : d.opposite.opposite = d := by
  cases d <;> rfl

theorem opposite_ne (d : Direction) : d.opposite ≠ d := by
  cases d <;> decide

theorem eq_opposite_of_ne {d e : Direction} (h : d ≠ e) : d = e.opposite := by
  cases d with
  | taken =>
      cases e with
      | taken => exact absurd rfl h
      | notTaken => rfl
  | notTaken =>
      cases e with
      | taken => rfl
      | notTaken => exact absurd rfl h

theorem ofBool_eq_taken_iff (b : Bool) : ofBool b = taken ↔ b = true := by
  cases b <;> simp [ofBool]

theorem ofBool_eq_notTaken_iff (b : Bool) : ofBool b = notTaken ↔ b = false := by
  cases b <;> simp [ofBool]

end Direction

/-- The kind of a control-flow instruction. -/
inductive BranchKind where
  | directBranch
  | directJump
  | indirectJump
  | directCall
  | indirectCall
  | procedureReturn
  deriving DecidableEq, Repr, Inhabited

namespace BranchKind

/-- Only direct branches are conditional. -/
def isConditional : BranchKind → Bool
  | directBranch => true
  | _ => false

/-- The instruction takes its target from a register or from memory. -/
def isIndirect : BranchKind → Bool
  | indirectJump | indirectCall | procedureReturn => true
  | _ => false

/-- Indirect jumps and calls are left to the target predictor; returns belong to a
return-address stack. -/
def usesTargetTables : BranchKind → Bool
  | indirectJump | indirectCall => true
  | _ => false

theorem usesTargetTables_iff (k : BranchKind) :
    k.usesTargetTables = true ↔ k.isIndirect = true ∧ k ≠ procedureReturn := by
  cases k <;> simp [usesTargetTables, isIndirect]

end BranchKind

/-- One dynamic branch: its address, its kind, its direction and its target. -/
structure Branch where
  pc : UInt64
  kind : BranchKind
  taken : Direction
  target : UInt64
  deriving DecidableEq, Repr, Inhabited

end BranchPrediction
