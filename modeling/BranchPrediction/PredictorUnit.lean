import BranchPrediction.Pipeline

/-!
# Predictor units

A predictor unit keeps one predictor for each hardware thread.  The pipeline refers to a branch in
flight by a handle, which is made by `predict` or `placeholder` and given back to exactly one of
`commit` and `squash`.

`runBranch` takes one branch through the whole protocol, with a wrong path of younger branches
when it is mispredicted.
-/

namespace BranchPrediction

/-- The pipeline's reference to a branch in flight. -/
structure Handle (R : Type) where
  thread : Nat
  record : R

/-- Independent predictors, one for each hardware thread. -/
structure PredictorUnit (P : Type) where
  threads : List P

namespace PredictorUnit

variable {P R Q : Type}

def build (count : Nat) (build : Nat → Except PredictorError P) :
    Except PredictorError (PredictorUnit P) := do
  if count = 0 then throw (.config .noThreads)
  let threads ← (List.range count).mapM build
  return ⟨threads⟩

def size (u : PredictorUnit P) : Nat :=
  u.threads.length

/-- The error of using a thread that does not exist. -/
def unknown (thread : Nat) : PredictorError :=
  .protocol (.unknownThread thread)

def thread (u : PredictorUnit P) (thread : Nat) : Except PredictorError P :=
  match u.threads[thread]? with
  | some p => .ok p
  | none => .error (unknown thread)

/-- Act on the element at a position of a list, and answer what the action answers. -/
def actAt {α β : Type} (action : α → α × β) : List α → Nat → List α × Option β
  | [], _ => ([], none)
  | a :: rest, 0 =>
    let (a, answer) := action a
    (a :: rest, some answer)
  | a :: rest, position + 1 =>
    let (rest, answer?) := actAt action rest position
    (a :: rest, answer?)

/-- Act on the predictor of a thread, and answer what the action answers. -/
def onThread {β : Type} (u : PredictorUnit P) (thread : Nat) (action : P → P × β) :
    PredictorUnit P × Option β :=
  match u with
  | ⟨threads⟩ =>
    let (threads, answer?) := actAt action threads thread
    (⟨threads⟩, answer?)

variable [SpeculativePredictor P R Q]

def predict (u : PredictorUnit P) (thread : Nat) (pc : UInt64) (isConditional : Bool) :
    Except PredictorError (Q × Handle R) := do
  let p ← u.thread thread
  let (prediction, record) := SpeculativePredictor.predict p pc isConditional
  return (prediction, ⟨thread, record⟩)

def placeholder (u : PredictorUnit P) (thread : Nat) (pc : UInt64) (isConditional : Bool) :
    Except PredictorError (Handle R) := do
  let p ← u.thread thread
  return ⟨thread, SpeculativePredictor.placeholder p pc isConditional⟩

/-- Change the record of a handle together with the predictor of its thread. -/
def modify (u : PredictorUnit P) (h : Handle R) (step : P → R → UpdateResult P R) :
    PredictorUnit P × Handle R × Option PredictorError :=
  match h with
  | ⟨thread, record⟩ =>
    let (u, answer?) := u.onThread thread fun p =>
      match step p record with
      | ⟨p, record, error?⟩ => (p, record, error?)
    match answer? with
    | some (record, error?) => (u, ⟨thread, record⟩, error?)
    | none => (u, ⟨thread, record⟩, some (unknown thread))

/-- Insert the history of a branch. -/
def update (u : PredictorUnit P) (h : Handle R) (b : Branch) :
    PredictorUnit P × Handle R × Option PredictorError :=
  u.modify h fun p r => SpeculativePredictor.update p r b

/-- Insert the history of a branch as resolved. -/
def repair (u : PredictorUnit P) (h : Handle R) (b : Branch) :
    PredictorUnit P × Handle R × Option PredictorError :=
  u.modify h fun p r => SpeculativePredictor.repair p r b

/-- Give a handle back. -/
def release (u : PredictorUnit P) (h : Handle R) (step : P → R → ReleaseResult P) :
    PredictorUnit P × Option PredictorError :=
  match h with
  | ⟨thread, record⟩ =>
    let (u, answer?) := u.onThread thread fun p =>
      match step p record with
      | ⟨p, error?⟩ => (p, error?)
    (u, answer?.getD (some (unknown thread)))

/-- Train on a resolved branch and retire it. -/
def commit (u : PredictorUnit P) (h : Handle R) (b : Branch) :
    PredictorUnit P × Option PredictorError :=
  u.release h fun p r => SpeculativePredictor.commit p r b

def squash (u : PredictorUnit P) (h : Handle R) : PredictorUnit P × Option PredictorError :=
  u.release h SpeculativePredictor.squash

def reset (u : PredictorUnit P) : PredictorUnit P :=
  match u with
  | ⟨threads⟩ => ⟨threads.map SpeculativePredictor.reset⟩

/-- Predict and update the branches of a wrong path, each predicted as a conditional one.  The
handles come youngest first. -/
def enterDetour (u : PredictorUnit P) (thread : Nat) :
    List Branch → List (Handle R) → PredictorUnit P × Except PredictorError (List (Handle R))
  | [], handles => (u, .ok handles)
  | b :: rest, handles =>
    match u.predict thread b.pc true with
    | .error error => (u, .error error)
    | .ok (_, h) =>
      match u.update h b with
      | (u, _, some error) => (u, .error error)
      | (u, h, none) => enterDetour u thread rest (h :: handles)

/-- Squash handles in the given order, up to the first error. -/
def squashAll (u : PredictorUnit P) : List (Handle R) → PredictorUnit P × Option PredictorError
  | [] => (u, none)
  | h :: rest =>
    match u.squash h with
    | (u, some error) => (u, some error)
    | (u, none) => squashAll u rest

/-- Follow a wrong path and come back: enter the branches, then squash them youngest first.  Answers
how many were squashed. -/
def detour (u : PredictorUnit P) (thread : Nat) (path : List Branch) :
    PredictorUnit P × Except PredictorError Nat :=
  match u.enterDetour thread path [] with
  | (u, .error error) => (u, .error error)
  | (u, .ok handles) =>
    match u.squashAll handles with
    | (u, some error) => (u, .error error)
    | (u, none) => (u, .ok handles.length)

/-- Commit a branch after which `squashed` branches of a wrong path were squashed. -/
def retire (u : PredictorUnit P) (h : Handle R) (b : Branch) (squashed : Nat) :
    PredictorUnit P × Except PredictorError Nat :=
  match u.commit h b with
  | (u, some error) => (u, .error error)
  | (u, none) => (u, .ok squashed)

/-- Take a predicted branch to its commit.  A branch that was misread first updates history as
misread, is followed by a wrong path, and is then repaired.  Answers how many branches of the wrong
path were squashed. -/
def resolve (u : PredictorUnit P) (h : Handle R) (b : Branch) (misread? : Option Branch)
    (path : List Branch) : PredictorUnit P × Except PredictorError Nat :=
  match misread? with
  | none =>
    match u.update h b with
    | (u, _, some error) => (u, .error error)
    | (u, h, none) => u.retire h b 0
  | some misread =>
    match u.update h misread with
    | (u, _, some error) => (u, .error error)
    | (u, h, none) =>
      match u.detour h.thread path with
      | (u, .error error) => (u, .error error)
      | (u, .ok squashed) =>
        match u.repair h b with
        | (u, _, some error) => (u, .error error)
        | (u, h, none) => u.retire h b squashed

/-- What became of one branch that went through the whole protocol. -/
structure BranchReport (Q : Type) where
  prediction : Q
  mispredicted : Bool
  /-- The number of wrong-path branches squashed. -/
  squashed : Nat

/-- Predict a branch and take it to its commit.  A source `σ` supplies the wrong path when the
branch is mispredicted. -/
def runBranch {σ : Type} (u : PredictorUnit P) (thread : Nat)
    (wrongPath : Branch → σ → List Branch × σ)
    (b : Branch) (s : σ) : PredictorUnit P × σ × Except PredictorError (BranchReport Q) :=
  match u.predict thread b.pc b.kind.isConditional with
  | .error error => (u, s, .error error)
  | .ok (prediction, h) =>
    let misread := SpeculativePredictor.misread? P prediction b
    let (path, s) := if misread.isSome then wrongPath b s else ([], s)
    match u.resolve h b misread path with
    | (u, .error error) => (u, s, .error error)
    | (u, .ok squashed) => (u, s, .ok ⟨prediction, misread.isSome, squashed⟩)

/-- Take branches through the whole protocol one after another, up to the first error, and note
what became of each. -/
def runBranches {σ γ : Type} (u : PredictorUnit P) (thread : Nat)
    (wrongPath : Branch → σ → List Branch × σ)
    (note : Branch → BranchReport Q → γ → γ) :
    List Branch → σ → γ → PredictorUnit P × σ × Except PredictorError γ
  | [], s, notes => (u, s, .ok notes)
  | b :: rest, s, notes =>
    match u.runBranch thread wrongPath b s with
    | (u, s, .error error) => (u, s, .error error)
    | (u, s, .ok report) => runBranches u thread wrongPath note rest s (note b report notes)

end PredictorUnit

end BranchPrediction
