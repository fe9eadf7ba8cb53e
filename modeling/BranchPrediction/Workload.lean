import BranchPrediction.Branch
import BranchPrediction.Random.ChaCha

/-!
# A synthetic workload

A loop with a fixed number of iterations, a random branch and one that is correlated with it, and
an interpreter's dispatch through an indirect call.  The same random stream supplies the branches
of wrong paths.
-/

namespace BranchPrediction

/-- The state of the workload. -/
structure Workload where
  random : ChaCha
  /-- The number of outer iterations so far. -/
  round : Nat
  /-- The last outcome of the random branch. -/
  last : Direction

namespace Workload

def loopPc : UInt64 := 0x10000

def randomPc : UInt64 := 0x10040

def correlatedPc : UInt64 := 0x10080

def dispatchPc : UInt64 := 0x100c0

def innerTrip : Nat := 9

def opcodes : List UInt64 := [0, 1, 1, 2, 0, 3, 4, 1]

/-- The address of the handler of an opcode. -/
def handler (opcode : UInt64) : UInt64 :=
  0x20000 + 0x1000 * opcode

def ofSeed (seed : UInt64) : Workload :=
  ⟨.ofSeed seed, 0, .notTaken⟩

def innerLoop : List Branch :=
  (List.range innerTrip).map fun i =>
    ⟨loopPc, .directBranch, .ofBool (i + 1 ≠ innerTrip), loopPc - 0x20⟩

/-- One iteration of the outer loop. -/
def nextBlock (w : Workload) : List Branch × Workload :=
  let (event, random) := RandomSource.ratio 1 2 w.random
  let drawn := Direction.ofBool event
  let correlated := Direction.ofBool (drawn = w.last)
  let target := handler (opcodes.getD (w.round % opcodes.length) 0)
  let block := innerLoop ++
    [⟨randomPc, .directBranch, drawn, randomPc + 0x10⟩,
     ⟨correlatedPc, .directBranch, correlated, correlatedPc + 0x10⟩,
     ⟨dispatchPc, .indirectCall, .taken, target⟩,
     ⟨target + 0x40, .procedureReturn, .taken, dispatchPc + 4⟩]
  (block, ⟨random, w.round + 1, drawn⟩)

/-- The branches of `rounds` iterations of the outer loop, behind those already there. -/
def blocks : Nat → Workload → Array Branch → Array Branch × Workload
  | 0, w, events => (events, w)
  | rounds + 1, w, events =>
    let (block, w) := w.nextBlock
    blocks rounds w (events ++ block.toArray)

/-- The first `count` branches.  Whole iterations are generated, and the last one is cut. -/
def branches (w : Workload) (count : Nat) : List Branch × Workload :=
  let blockLength := innerTrip + 4
  let (events, w) := blocks ((count + blockLength - 1) / blockLength) w #[]
  (events.toList.take count, w)

/-- A branch on a path that will never commit. -/
def wrongBranch (w : Workload) : Branch × Workload :=
  let (place, random) := RandomSource.below 64 w.random
  let (word, random) := RandomSource.next random
  let pc := 0x30000 + place * 4
  (⟨pc, .directBranch, .ofBool (word < 0x8000000000000000), pc + 0x100⟩, { w with random })

/-- The branches of a wrong path. -/
def wrongPath : Nat → Workload → List Branch × Workload
  | 0, w => ([], w)
  | count + 1, w =>
    let (b, w) := w.wrongBranch
    let (rest, w) := wrongPath count w
    (b :: rest, w)

end Workload

end BranchPrediction
