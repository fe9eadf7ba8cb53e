import BranchPrediction.Pipeline
import Mathlib.Data.List.Basic

/-!
# Sessions of a pipeline with a predictor

A pipeline drives one predictor by a sequence of calls.  Branches in flight are named by handles,
which the pipeline chooses; a `Session` is the predictor together with the record of each handle
and the records that were committed.  A call on a handle without a record does nothing, and a
handle that was committed or squashed has no record any more, whether or not the call succeeded.

`Event` groups the calls the way a pipeline makes them that inserts the history of a branch as soon
as it is fetched.
-/

namespace BranchPrediction

/-- One call of a pipeline. -/
inductive Call where
  | predict (h : Nat) (pc : UInt64) (isConditional : Bool)
  | placeholder (h : Nat) (pc : UInt64) (isConditional : Bool)
  | update (h : Nat) (b : Branch)
  | repair (h : Nat) (b : Branch)
  | commit (h : Nat) (b : Branch)
  | squash (h : Nat)
  | reset
  deriving DecidableEq, Repr

namespace Call

/-- The call that makes the record of a branch, with a lookup or without one. -/
def create (h : Nat) (predicted : Bool) (pc : UInt64) (isConditional : Bool) : Call :=
  if predicted then .predict h pc isConditional else .placeholder h pc isConditional

/-- A later update of a record, which may be counted as a repair. -/
def revise (h : Nat) (repairs : Bool) (b : Branch) : Call :=
  if repairs then .repair h b else .update h b

/-- The same call with an update in place of a repair. -/
def asUpdate : Call → Call
  | repair h b => update h b
  | call => call

end Call

/-- What a pipeline does with one branch at a time. -/
inductive Event where
  /-- Make the record of a branch, and insert its history at once. -/
  | fetch (h : Nat) (predicted : Bool) (pc : UInt64) (isConditional : Bool) (b : Branch)
  /-- Insert the history of a branch anew. -/
  | revise (h : Nat) (repairs : Bool) (b : Branch)
  | commit (h : Nat) (b : Branch)
  | squash (h : Nat)
  | reset
  deriving DecidableEq, Repr

namespace Event

def calls : Event → List Call
  | fetch h predicted pc isConditional b =>
    [.create h predicted pc isConditional, .update h b]
  | revise h repairs b => [.revise h repairs b]
  | commit h b => [.commit h b]
  | squash h => [.squash h]
  | reset => [.reset]

def asUpdate : Event → Event
  | revise h _ b => revise h false b
  | event => event

theorem calls_asUpdate (event : Event) :
    event.calls.map Call.asUpdate = event.asUpdate.calls := by
  cases event with
  | fetch h predicted pc isConditional b => cases predicted <;> rfl
  | revise h repairs b => cases repairs <;> rfl
  | commit h b => rfl
  | squash h => rfl
  | reset => rfl

theorem flatMap_calls_asUpdate (events : List Event) :
    (events.flatMap calls).map Call.asUpdate = (events.map asUpdate).flatMap calls := by
  induction events with
  | nil => rfl
  | cons event rest ih =>
      rw [List.flatMap_cons, List.map_append, calls_asUpdate, ih, List.map_cons, List.flatMap_cons]

end Event

/-- A predictor in use, with the records of the branches in flight. -/
structure Session (P R : Type) where
  predictor : P
  /-- The record of each handle in use. -/
  records : Nat → Option R
  /-- The records that were committed, as they were before their commit, the last one first. -/
  committed : List R

namespace Session

variable {P R Q : Type}

def start (p : P) : Session P R :=
  ⟨p, fun _ => none, []⟩

@[ext]
theorem ext {s t : Session P R} (hpredictor : s.predictor = t.predictor)
    (hrecords : s.records = t.records) (hcommitted : s.committed = t.committed) : s = t := by
  rcases s with ⟨p, records, committed⟩
  subst hpredictor hrecords hcommitted
  rfl

def put (records : Nat → Option R) (h : Nat) (r? : Option R) : Nat → Option R :=
  fun k => if k = h then r? else records k

@[simp]
theorem put_same (records : Nat → Option R) (h : Nat) (r? : Option R) :
    put records h r? h = r? :=
  if_pos rfl

theorem put_of_ne (records : Nat → Option R) {h k : Nat} (hne : k ≠ h) (r? : Option R) :
    put records h r? k = records k :=
  if_neg hne

@[simp]
theorem put_put (records : Nat → Option R) (h : Nat) (r? s? : Option R) :
    put (put records h r?) h s? = put records h s? := by
  funext k
  by_cases hk : k = h
  · simp [put, hk]
  · simp [put, hk]

theorem put_comm (records : Nat → Option R) {h k : Nat} (hne : h ≠ k) (r? s? : Option R) :
    put (put records h r?) k s? = put (put records k s?) h r? := by
  funext i
  by_cases hi : i = k
  · have : i ≠ h := by omega
    simp [put, hi, hne.symm]
  · simp [put, hi]

theorem put_eq_self {records : Nat → Option R} {h : Nat} {r? : Option R}
    (hrecord : records h = r?) : put records h r? = records := by
  funext k
  by_cases hk : k = h
  · simp [put, hk, hrecord]
  · simp [put, hk]

/-- Change the record of a handle together with the predictor. -/
def modify (s : Session P R) (h : Nat) (step : P → R → UpdateResult P R) :
    Session P R × Option PredictorError :=
  match s.records h with
  | none => (s, none)
  | some r =>
    match step s.predictor r with
    | ⟨p, r, error?⟩ => ({ s with predictor := p, records := put s.records h (some r) }, error?)

/-- Give up the record of a handle; `kept` says what remains of it if the step succeeds. -/
def release (s : Session P R) (h : Nat) (kept : R → List R) (step : P → R → ReleaseResult P) :
    Session P R × Option PredictorError :=
  match s.records h with
  | none => (s, none)
  | some r =>
    match step s.predictor r with
    | ⟨p, error?⟩ =>
      (⟨p, put s.records h none, (if error?.isNone then kept r else []) ++ s.committed⟩, error?)

variable [SpeculativePredictor P R Q]

/-- Carry out one call, and answer its error. -/
def perform (s : Session P R) : Call → Session P R × Option PredictorError
  | .predict h pc isConditional =>
    let r := (SpeculativePredictor.predict s.predictor pc isConditional).2
    ({ s with records := put s.records h (some r) }, none)
  | .placeholder h pc isConditional =>
    let r := SpeculativePredictor.placeholder s.predictor pc isConditional
    ({ s with records := put s.records h (some r) }, none)
  | .update h b => s.modify h fun p r => SpeculativePredictor.update p r b
  | .repair h b => s.modify h fun p r => SpeculativePredictor.repair p r b
  | .commit h b => s.release h (fun r => [r]) fun p r => SpeculativePredictor.commit p r b
  | .squash h => s.release h (fun _ => []) SpeculativePredictor.squash
  | .reset => ({ s with predictor := SpeculativePredictor.reset s.predictor }, none)

def run (s : Session P R) (calls : List Call) : Session P R :=
  calls.foldl (fun s call => (s.perform call).1) s

def errors (s : Session P R) : List Call → List PredictorError
  | [] => []
  | call :: calls => (s.perform call).2.toList ++ errors (s.perform call).1 calls

@[simp]
theorem run_nil (s : Session P R) : s.run [] = s :=
  rfl

theorem run_cons (s : Session P R) (call : Call) (calls : List Call) :
    s.run (call :: calls) = (s.perform call).1.run calls :=
  rfl

theorem run_append (s : Session P R) (first second : List Call) :
    s.run (first ++ second) = (s.run first).run second :=
  List.foldl_append

theorem errors_append (s : Session P R) (first second : List Call) :
    s.errors (first ++ second) = s.errors first ++ (s.run first).errors second := by
  induction first generalizing s with
  | nil => rfl
  | cons call first ih => rw [List.cons_append, errors, ih, errors, List.append_assoc, run_cons]

/-- No call answers an error but that the history is full. -/
def OverflowsOnly (errors : List PredictorError) : Prop :=
  ∀ error ∈ errors, ∃ inFlight capacity, error = .protocol (.historyOverflow inFlight capacity)

theorem overflowsOnly_nil : OverflowsOnly [] := by
  intro error herror
  cases herror

theorem overflowsOnly_append {first second : List PredictorError} (hfirst : OverflowsOnly first)
    (hsecond : OverflowsOnly second) : OverflowsOnly (first ++ second) := by
  intro error herror
  rcases List.mem_append.1 herror with hmem | hmem
  · exact hfirst error hmem
  · exact hsecond error hmem

end Session

end BranchPrediction
