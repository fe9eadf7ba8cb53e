import BranchPrediction.Corrector
import BranchPrediction.Json.Reader
import BranchPrediction.LoopPredictor
import BranchPrediction.Tage

/-!
# Snapshots of tables

The state of counters, entries, tables and component predictors as JSON values, for logs and
tools.  Words are written in hexadecimal, everything else that is numeric as an integer.  Large
tables are written sparsely: only what differs from a fresh table, by index.
-/

namespace BranchPrediction

namespace Snapshot

open Json (nat str option ofMembers)

def word (w : UInt64) : Json :=
  str ("0x" ++ String.ofList (Nat.toDigits 16 w.toNat))

def word? : Json → Option UInt64
  | .integer n => if 0 ≤ n then some (UInt64.ofNat n.toNat) else none
  | .string (some s) =>
    match s.toList with
    | '0' :: 'x' :: digits =>
      (digits.mapM Json.hexValue?).map fun values =>
        UInt64.ofNat (values.foldl (fun n digit => 16 * n + digit) 0)
    | _ => none
  | _ => none

def nats (ns : List Nat) : Json :=
  .array (ns.map nat)

/-- A direction, by its initial. -/
def direction (d : Direction) : Json :=
  str (if d.isTaken then "t" else "n")

def counter (c : Counter) : Json :=
  .integer c.value

def counters (cs : Array Counter) : Json :=
  .array (cs.toList.map counter)

/-- The counters that are not zero, each with its index. -/
def sparseCounters (cs : Array Counter) : Json :=
  .array (cs.toList.zipIdx.filterMap fun (c, i) =>
    if c.value = 0 then none else some (.array [nat i, counter c]))

def folds (fs : Array FoldedHistory) : Json :=
  .array (fs.toList.map fun f => word f.value)

class PayloadText (P : Type) extends Payload P where
  write : P → Json
  read? : Json → Option P

instance : PayloadText SignOnly where
  write _ := .null
  read? _ := some ⟨⟩

instance : PayloadText Target where
  write t := option word t.address?
  read?
    | .null => some ⟨none⟩
    | j => (word? j).map fun w => ⟨some w⟩

def slot (s : Slot) : Json :=
  nats [s.index, s.tag]

def slots (ss : Array Slot) : Json :=
  .array (ss.toList.map slot)

section Tables

variable {P : Type} [PayloadText P]

def entryFields (e : TaggedEntry P) : List Json :=
  [option nat e.tag?, counter e.confidence, counter e.useful, PayloadText.write e.payload]

def entry (e : TaggedEntry P) : Json :=
  .array (entryFields e)

/-- The entry is as it was before its first allocation, up to the ranges of its counters. -/
def isBlank (e : TaggedEntry P) : Bool :=
  e.tag?.isNone && e.confidence.value = 0 && e.useful.value = 0
    && (PayloadText.write e.payload matches .null)

/-- The folds of a table: that of the index, then those of the tag. -/
def tableFolds (t : TaggedTable P) : Json :=
  folds #[t.indexFold, t.tagFold, t.narrowFold]

def tableEntries (t : TaggedTable P) : Json :=
  .array (t.entries.toList.zipIdx.filterMap fun (e, i) =>
    if isBlank e then none else some (.array (nat i :: entryFields e)))

def entriesAt (l : Ladder P) (slots : Array Slot) : Json :=
  .array ((List.range l.size).filterMap fun bank => (l.entry? slots bank).map entry)

def ladderFolds (l : Ladder P) : Json :=
  .array (l.tables.toList.map tableFolds)

def stats (s : LadderStats) : Json :=
  ofMembers [
    ("alcs", nat s.allocations), ("failed_alcs", nat s.failedAllocations),
    ("resets", nat s.agings), ("clk", nat s.commits),
    ("target_replacements", nat s.targetReplacements),
    ("provider_correct", nats s.correct.toList), ("provider_wrong", nats s.wrong.toList),
    ("comp_miss", nats s.misses.toList), ("correct", nat s.correct.total),
    ("wrong", nat s.wrong.total)]

def ladderMembers (l : Ladder P) : List (String × Json) :=
  [("folds", ladderFolds l), ("comp", .array (l.tables.toList.map tableEntries)),
   ("use_alt", counters l.useAlt), ("stat", stats l.stats)]

def ladder (l : Ladder P) : Json :=
  ofMembers (ladderMembers l)

end Tables

def tage (t : Tage) : Json :=
  ofMembers (("base", sparseCounters t.base.counters) :: ladderMembers t.ladder)

def source : ProviderSource → Json
  | .longestMatch => str "LongestMatch"
  | .altMatch => str "AltMatch"
  | .fallback => str "Fallback"

def prediction (p : Tage.Prediction) : Json :=
  ofMembers [
    ("slots", slots p.slots), ("base_idx", nat p.baseIndex), ("hit", option nat p.hit?),
    ("alt", option nat p.alt?),
    ("provider", match p.provider with | .base => .null | .tagged bank => nat bank),
    ("source", source p.source), ("outcome", direction p.outcome),
    ("longest", direction p.longestOutcome), ("alt_outcome", direction p.altOutcome),
    ("pseudo_new", .bool p.pseudoNew), ("confidence", nat p.confidence.rank),
    ("class", .bool p.conditional)]

def loopLookup (l : LoopPredictor.Lookup) : Json :=
  ofMembers [
    ("hit", option nat l.hit?), ("tag", nat l.tag), ("set", nat l.set), ("valid", .bool l.isValid),
    ("prediction", direction l.prediction), ("saved_iter", nat l.savedIteration)]

def loopEntry (e : LoopPredictor.Entry) : Json :=
  .array [option nat e.tag?, nat e.trip, nat e.iteration, nat e.specIteration,
    counter e.confidence, counter e.age, direction e.body]

def loopSet (p : LoopPredictor) (set : Nat) : Json :=
  .array ((p.waysOf set).filterMap fun i => p.entries[i]?.map loopEntry)

/-- The state of a loop predictor; entries that were never allocated are left out. -/
def loops (p : LoopPredictor) : Json :=
  ofMembers [
    ("meta", counters p.trust),
    ("entries", .array (p.entries.toList.zipIdx.filterMap fun (e, i) =>
      if e.tag?.isNone && e.age.value = 0 then none else some (.array [nat i, loopEntry e])))]

def correctorLookup (l : Corrector.Lookup) : Json :=
  ofMembers [
    ("bias", nat l.biasIndex), ("gehl", nats l.historyIndices.toList), ("path", nat l.pathIndex),
    ("sum", .integer l.sum), ("sc_outcome", direction l.outcome),
    ("prediction", direction l.prediction), ("overridden", .bool l.overridden)]

def corrector (c : Corrector) : Json :=
  ofMembers [
    ("bias", sparseCounters c.bias), ("gehl", .array (c.history.toList.map sparseCounters)),
    ("path", sparseCounters c.path), ("threshold", .integer c.threshold),
    ("threshold_ctr", counter c.thresholdCounter), ("csr", folds c.folds)]

end Snapshot

end BranchPrediction
