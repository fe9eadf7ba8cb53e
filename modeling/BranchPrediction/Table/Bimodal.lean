import BranchPrediction.Error
import BranchPrediction.Counter
import BranchPrediction.Word

/-!
# The bimodal table

A table of unsigned counters indexed by the address alone.  It answers for a branch that no
tagged table knows.
-/

namespace BranchPrediction

/-- The error, if any, in the width of a counter or a tag. -/
def checkWidth (part : Part) (bits most : Nat) : Except ConfigError Unit :=
  if bits = 0 then throw (.zeroWidth part)
  else if most < bits then throw (.tooWide part bits most)
  else pure ()

/-- The error, if any, in the logarithm of the size of a table. -/
def checkLogSize (part : Part) (logSize : Nat) : Except ConfigError Unit :=
  if logSize = 0 then throw (.emptyTable part)
  else if 31 ≤ logSize then throw (.tableTooLarge part)
  else pure ()

namespace Bimodal

/-- The configuration of a bimodal table. -/
structure Config where
  logSize : Nat := 13
  counterBits : Nat := 2
  deriving DecidableEq, Repr, Inhabited

namespace Config

def size (c : Config) : Nat :=
  1 <<< c.logSize

def storageBits (c : Config) : Nat :=
  c.counterBits * c.size

/-- Reject an empty or an oversized table, and counters that do not exist. -/
def validate (c : Config) : Except ConfigError Unit := do
  checkLogSize .baseTable c.logSize
  checkWidth .baseCounter c.counterBits Counter.Range.maxBits

end Config

end Bimodal

/-- A table of unsigned counters indexed by the address. -/
structure Bimodal where
  config : Bimodal.Config
  counters : Array Counter
  counters_size : counters.size = config.size

namespace Bimodal

def zero (config : Config) : Bimodal where
  config := config
  counters := Array.replicate config.size (.zero (.unsigned config.counterBits))
  counters_size := by simp

theorem size_pos (t : Bimodal) : 0 < t.counters.size := by
  rw [t.counters_size, Config.size, Nat.one_shiftLeft]
  exact Nat.two_pow_pos _

/-- The index of a branch: its address hashed with itself. -/
def index (t : Bimodal) (pc : UInt64) : Nat :=
  ((pc ^^^ (pc >>> UInt64.ofNat t.config.logSize)) &&& lowMask t.config.logSize).toNat

/-- The counter at an index, which is taken modulo the size of the table. -/
def counter (t : Bimodal) (index : Nat) : Counter :=
  have := Nat.mod_lt index t.size_pos
  t.counters[index % t.counters.size]

def train (t : Bimodal) (index : Nat) (direction : Direction) : Bimodal :=
  match t with
  | ⟨config, counters, counters_size⟩ =>
    ⟨config, counters.modify (index % counters.size) (·.train direction),
      by simpa using counters_size⟩

def reset (t : Bimodal) : Bimodal :=
  match t with
  | ⟨config, counters, counters_size⟩ =>
    ⟨config, counters.map Counter.reset, by simpa using counters_size⟩

end Bimodal

end BranchPrediction
