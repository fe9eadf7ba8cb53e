import BranchPrediction.Table.Bimodal

/-!
# The loop predictor

A loop that always runs the same number of times is recognised once that number has been observed
a few times in a row; from then on its exit is known exactly.  An entry counts iterations twice:
the committed count learns, the speculative count includes the branches in flight and predicts.
-/

namespace BranchPrediction

namespace LoopPredictor

structure Config where
  /-- The binary logarithm of the number of sets. -/
  logSets : Nat := 4
  /-- The number of entries in a set. -/
  ways : Nat := 4
  tagBits : Nat := 10
  iterationBits : Nat := 10
  /-- The width of the confidence in a trip count. -/
  confidenceBits : Nat := 2
  ageBits : Nat := 3
  /-- The binary logarithm of the number of trust counters. -/
  trustLogSize : Nat := 0
  trustBits : Nat := 7
  deriving DecidableEq, Repr, Inhabited

namespace Config

/-- The number of entries, which is a word where there is room for them. -/
def size (c : Config) : Nat :=
  (1 <<< c.logSets) * c.ways

/-- There is room for the entries.  No check of the configuration bounds the number of ways, so this
is what keeps their number and their indices from wrapping around. -/
def hasRoom (c : Config) : Bool :=
  hasRoomFor c.size

def trustSize (c : Config) : Nat :=
  1 <<< c.trustLogSize

/-- Reject tables that are empty or too large, and counters that do not exist. -/
def validate (c : Config) : Except ConfigError Unit := do
  if c.ways = 0 then throw (.emptyTable .loopPredictor)
  if 24 ≤ c.logSets ∨ 24 ≤ c.trustLogSize then throw .loopTablesTooLarge
  checkWidth .loopTag c.tagBits 31
  checkWidth .loopIteration c.iterationBits 15
  checkWidth .loopConfidence c.confidenceBits Counter.Range.maxBits
  checkWidth .loopAge c.ageBits Counter.Range.maxBits
  checkWidth .loopTrust c.trustBits Counter.Range.maxBits

end Config

structure Entry where
  tag? : Option Nat
  /-- The learned number of iterations, with the exit; 0 while unknown. -/
  trip : Nat
  /-- The committed iteration count. -/
  iteration : Nat
  /-- The iteration count with the branches in flight. -/
  specIteration : Nat
  /-- The confidence in the trip count. -/
  confidence : Counter
  age : Counter
  /-- The direction of the loop's body. -/
  body : Direction
  deriving DecidableEq, Repr

namespace Entry

/-- An entry that was never allocated. -/
def blank (c : Config) : Entry :=
  ⟨none, 0, 0, 0, .zero (.unsigned c.confidenceBits), .zero (.unsigned c.ageBits), .notTaken⟩

/-- Forget the trip count and leave the entry to be replaced. -/
def release (e : Entry) : Entry :=
  { e with trip := 0, iteration := 0, confidence := e.confidence.reset, age := e.age.reset }

def forgetTrip (e : Entry) : Entry :=
  { e with trip := 0, confidence := e.confidence.reset }

/-- A fresh entry for a loop whose exit went `outcome`. -/
def allocated (c : Config) (tag : Nat) (outcome : Direction) : Entry :=
  let e := blank c
  { e with tag? := some tag, body := outcome.opposite, age := e.age.set e.age.range.max }

/-- The entry is confident in its trip count. -/
def isValid (e : Entry) : Bool :=
  e.trip ≠ 0 && e.confidence.value = e.confidence.range.max

/-- The direction of the next iteration: the exit where the trip count says so. -/
def prediction (e : Entry) : Direction :=
  if e.specIteration + 1 = e.trip then e.body.opposite else e.body

/-- Advance the speculative count, which is taken modulo `2 ^ bits`. -/
def speculate (bits : Nat) (outcome : Direction) (e : Entry) : Entry :=
  { e with specIteration := if outcome ≠ e.body then 0 else (e.specIteration + 1) % (1 <<< bits) }

/-- Learn from the exit of the loop: confirm the trip count, take the first one, or give up a
wrong one.  Very short loops are given up too. -/
def exit (outcome : Direction) (e : Entry) : Entry :=
  let e :=
    if e.iteration = e.trip then
      let e := { e with confidence := e.confidence.increment }
      if e.trip < 3 then { e with body := outcome }.release else e
    else if e.trip = 0 then { e with confidence := e.confidence.reset, trip := e.iteration }
    else e.forgetTrip
  { e with iteration := 0 }

/-- Count one committed iteration, and learn from it if it is the exit. -/
def advance (bits : Nat) (outcome : Direction) (e : Entry) : Entry :=
  let e := { e with iteration := (e.iteration + 1) % (1 <<< bits) }
  let e := if e.trip < e.iteration then e.forgetTrip else e
  if outcome ≠ e.body then e.exit outcome else e

end Entry

structure Lookup where
  /-- The entry that holds the branch. -/
  hit? : Option Nat := none
  tag : Nat := 0
  set : Nat := 0
  /-- The entry is confident in its trip count. -/
  isValid : Bool := false
  prediction : Direction := .notTaken
  /-- The speculative count at the time of the lookup. -/
  savedIteration : Nat := 0
  deriving DecidableEq, Repr, Inhabited

/-- Learn from a committed branch that the entry held when it was looked up.  A confident entry
that was wrong is given up; one that was right where the direction predictor was not is worth
keeping longer. -/
def Entry.train (bits : Nat) (lookup : Lookup) (outcome primary : Direction) (e : Entry) : Entry :=
  if lookup.isValid && outcome ≠ lookup.prediction then e.release
  else
    let e := if lookup.isValid && lookup.prediction ≠ primary then
        { e with age := e.age.increment }
      else e
    e.advance bits outcome

end LoopPredictor

/-- The loop predictor: sets of tagged entries, and counters that tell whether it helps. -/
structure LoopPredictor where
  config : LoopPredictor.Config
  entries : Array LoopPredictor.Entry
  /-- Whether overriding the direction predictor has helped. -/
  trust : Array Counter

namespace LoopPredictor

def blank (config : Config) : LoopPredictor where
  config := config
  entries := Array.replicate config.size (.blank config)
  trust := Array.replicate config.trustSize ((Counter.zero (.signed config.trustBits)).set (-1))

def setOf (p : LoopPredictor) (pc : UInt64) : Nat :=
  ((pc >>> 2) &&& lowMask p.config.logSets).toNat

def tagOf (p : LoopPredictor) (pc : UInt64) : Nat :=
  ((pc >>> UInt64.ofNat (2 + p.config.logSets)) &&& lowMask p.config.tagBits).toNat

def trustIndex (p : LoopPredictor) (pc : UInt64) : Nat :=
  ((pc >>> 2) &&& lowMask p.config.trustLogSize).toNat

/-- The indices of the entries of a set. -/
def waysOf (p : LoopPredictor) (set : Nat) : List Nat :=
  List.range' (set * p.config.ways) p.config.ways

/-- The entry of this index carries the tag. -/
def holds (p : LoopPredictor) (tag index : Nat) : Bool :=
  match p.entries[index]? with
  | some e => e.tag? = some tag
  | none => false

def lookup (p : LoopPredictor) (pc : UInt64) : Lookup :=
  let set := p.setOf pc
  let tag := p.tagOf pc
  let index? := (p.waysOf set).find? (p.holds tag)
  match index?.bind (p.entries[·]?) with
  | some e =>
    { hit? := index?, tag, set, isValid := e.isValid, prediction := e.prediction
      savedIteration := e.specIteration }
  | none => { tag, set }

def isBeneficial (p : LoopPredictor) (pc : UInt64) : Bool :=
  match p.trust[p.trustIndex pc]? with
  | some c => 0 ≤ c.value
  | none => false

/-- Learn whether the loop predictor was right where the two disagreed. -/
def trainTrust (p : LoopPredictor) (pc : UInt64) (isCorrect : Bool) : LoopPredictor :=
  match p with
  | ⟨config, entries, trust⟩ =>
    ⟨config, entries, trust.modify (((pc >>> 2) &&& lowMask config.trustLogSize).toNat)
      (·.step isCorrect)⟩

def modifyEntry (p : LoopPredictor) (index : Nat) (f : Entry → Entry) : LoopPredictor :=
  match p with
  | ⟨config, entries, trust⟩ => ⟨config, entries.modify index f, trust⟩

/-- Change the entry that held the branch at its lookup, if it still does. -/
def modifyHeld (p : LoopPredictor) (lookup : Lookup) (f : Entry → Entry) : LoopPredictor :=
  match lookup.hit? with
  | some index => if p.holds lookup.tag index then p.modifyEntry index f else p
  | none => p

/-- Advance the speculative iteration count. -/
def speculate (p : LoopPredictor) (lookup : Lookup) (outcome : Direction) : LoopPredictor :=
  p.modifyHeld lookup (·.speculate p.config.iterationBits outcome)

/-- Undo `speculate`. -/
def restore (p : LoopPredictor) (lookup : Lookup) : LoopPredictor :=
  p.modifyHeld lookup fun e => { e with specIteration := lookup.savedIteration }

/-- The entries of a set in the order of an allocation that starts from a way. -/
def scan (p : LoopPredictor) (set way : Nat) : List Nat :=
  (List.range p.config.ways).map fun i => set * p.config.ways + (way + i) % p.config.ways

/-- Replace the first entry of age 0, and take one from the age of those before it. -/
def allocateAmong (tag : Nat) (outcome : Direction) : List Nat → LoopPredictor → LoopPredictor
  | [], p => p
  | index :: rest, p =>
    match p.entries[index]? with
    | none => allocateAmong tag outcome rest p
    | some e =>
      if e.age.value = 0 then
        let fresh := Entry.allocated p.config tag outcome
        p.modifyEntry index fun _ => fresh
      else
        allocateAmong tag outcome rest
          (p.modifyEntry index fun e => { e with age := e.age.decrement })

/-- Learn from a resolved branch.  A branch that no entry held is given one, from `way` on, if it
was mispredicted and drew the right to it. -/
def commit (p : LoopPredictor) (lookup : Lookup) (outcome primary : Direction)
    (mispredicted mayAllocate : Bool) (way : Nat) : LoopPredictor :=
  if lookup.hit?.isSome then
    p.modifyHeld lookup (·.train p.config.iterationBits lookup outcome primary)
  else if mispredicted && mayAllocate then
    allocateAmong lookup.tag outcome (p.scan lookup.set way) p
  else p

/-- The lookup is of an entry that exists. -/
def fits (p : LoopPredictor) (lookup : Lookup) : Bool :=
  lookup.hit?.all (· < p.entries.size)

def reset (p : LoopPredictor) : LoopPredictor :=
  blank p.config

end LoopPredictor

end BranchPrediction
