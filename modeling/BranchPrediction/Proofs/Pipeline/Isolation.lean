import BranchPrediction.Proofs.Pipeline.Units
import BranchPrediction.Proofs.Pipeline.TageScl
import BranchPrediction.Proofs.Pipeline.Ittage

/-!
# Threads of a unit do not interfere

What a pipeline sees of a call is its `Reply`: the prediction, if the call makes one, and the error.
However the calls of the threads are interleaved, a thread `RunsAlone`: its predictor, its records
and the replies to its calls are those of a predictor of its own that receives only the calls of
the thread, and the resets.  A unit `Refuses` every call of a thread that it does not have, and
such a call changes nothing.
-/

namespace BranchPrediction

/-- What a pipeline sees of a call. -/
structure Reply (Q : Type) where
  prediction? : Option Q
  error? : Option PredictorError
  deriving DecidableEq, Repr

variable {P R Q : Type} [SpeculativePredictor P R Q]

namespace Session

def prediction? (s : Session P R) : Call → Option Q
  | .predict _ pc isConditional =>
    some (SpeculativePredictor.predict s.predictor pc isConditional).1
  | _ => none

def replies (s : Session P R) : List Call → List (Reply Q)
  | [] => []
  | call :: calls => ⟨s.prediction? call, (s.perform call).2⟩ :: replies (s.perform call).1 calls

end Session

namespace UnitSession

def prediction? (s : UnitSession P R) (thread : Nat) : Call → Option Q
  | .predict _ pc isConditional => (s.unit.predict thread pc isConditional).toOption.map (·.1)
  | _ => none

/-- The replies to the calls of a thread, in their order.  A reset is a call of every thread. -/
def replies (s : UnitSession P R) (thread : Nat) : List (Nat × Call) → List (Reply Q)
  | [] => []
  | (caller, call) :: calls =>
    let rest := replies (s.perform caller call).1 thread calls
    if (callOf thread (caller, call)).isSome then
      ⟨s.prediction? caller call, (s.perform caller call).2⟩ :: rest
    else rest

/-! ## The calls of a thread -/

variable {s : UnitSession P R} {t : Session P R} {thread caller : Nat}

theorem eq_of_callOf_eq_some {call own : Call} (hown : callOf thread (caller, call) = some own) :
    own = call ∧ (caller = thread ∨ call = .reset) := by
  cases call <;> simp_all [callOf]

/-- The reply to a call of a thread is the one of the predictor alone. -/
theorem mirrors_reply (hmirrors : s.Mirrors thread t) (call : Call) :
    s.prediction? thread call = t.prediction? call ∧
      (s.perform thread call).2 = (t.perform call).2 := by
  refine ⟨?_, (mirrors_perform hmirrors call).2⟩
  cases call with
  | predict h pc isConditional =>
      simp only [prediction?, PredictorUnit.predict, thread_eq hmirrors]
      rfl
  | _ => rfl

theorem replies_eq (hmirrors : s.Mirrors thread t) (calls : List (Nat × Call)) :
    s.replies thread calls = t.replies (calls.filterMap (callOf thread)) := by
  induction calls generalizing s t with
  | nil => rfl
  | cons call calls ih =>
      obtain ⟨caller, call⟩ := call
      have hone : (s.perform caller call).1.Mirrors thread
          (t.run ([(caller, call)].filterMap (callOf thread))) :=
        mirrors_run hmirrors [(caller, call)]
      cases hown : callOf thread (caller, call) with
      | none =>
          rw [List.filterMap_cons_none hown] at hone ⊢
          simp only [replies, hown, Option.isSome_none, Bool.false_eq_true, if_false]
          exact ih hone
      | some own =>
          rw [List.filterMap_cons_some hown] at hone ⊢
          simp only [replies, hown, Option.isSome_some, if_true, Session.replies]
          obtain ⟨rfl, hcaller⟩ := eq_of_callOf_eq_some hown
          have hreply : s.prediction? caller own = t.prediction? own ∧
              (s.perform caller own).2 = (t.perform own).2 := by
            rcases hcaller with rfl | rfl
            · exact mirrors_reply hmirrors own
            · exact ⟨rfl, rfl⟩
          rw [hreply.1, hreply.2, ih hone]
          rfl

/-- A thread of a unit, after calls of all threads, and a predictor that received the thread's
calls alone. -/
structure RunsAlone (u : PredictorUnit P) (calls : List (Nat × Call)) (thread : Nat) (p : P) :
    Prop where
  predictor : ((start u).run calls).unit.threads[thread]? =
    some ((Session.start p).run (calls.filterMap (callOf thread))).predictor
  records : ((start u).run calls).records thread =
    ((Session.start p).run (calls.filterMap (callOf thread))).records
  replies : (start u).replies thread calls =
    (Session.start p).replies (calls.filterMap (callOf thread))

theorem runsAlone {u : PredictorUnit P} {p : P} (hthread : u.threads[thread]? = some p)
    (calls : List (Nat × Call)) : RunsAlone u calls thread p := by
  have hstart : (start u : UnitSession P R).Mirrors thread (Session.start p) :=
    mirrors_start hthread
  have hrun := mirrors_run hstart calls
  exact ⟨hrun.predictor, hrun.records, replies_eq hstart calls⟩

end UnitSession

namespace PredictorUnit

/-- The unit answers every call of a thread with the error that there is no such thread, and is left
unchanged, as is the handle. -/
structure Refuses (u : PredictorUnit P) (thread : Nat) : Prop where
  predict : ∀ (pc : UInt64) (isConditional : Bool),
    u.predict thread pc isConditional = .error (unknown thread)
  placeholder : ∀ (pc : UInt64) (isConditional : Bool),
    u.placeholder thread pc isConditional = .error (unknown thread)
  update : ∀ (r : R) (b : Branch), u.update ⟨thread, r⟩ b = (u, ⟨thread, r⟩, some (unknown thread))
  repair : ∀ (r : R) (b : Branch), u.repair ⟨thread, r⟩ b = (u, ⟨thread, r⟩, some (unknown thread))
  commit : ∀ (r : R) (b : Branch), u.commit ⟨thread, r⟩ b = (u, some (unknown thread))
  squash : ∀ r : R, u.squash ⟨thread, r⟩ = (u, some (unknown thread))

theorem onThread_of_size_le {β : Type} {u : PredictorUnit P} {thread : Nat}
    (hout : u.size ≤ thread) (action : P → P × β) : u.onThread thread action = (u, none) := by
  simp only [onThread, actAt_eq, List.modify_eq_self hout, List.getElem?_eq_none hout,
    Option.map_none]

theorem refuses_of_size_le {u : PredictorUnit P} {thread : Nat} (hout : u.size ≤ thread) :
    u.Refuses thread := by
  have hthread : u.thread thread = .error (unknown thread) := by
    rw [PredictorUnit.thread, List.getElem?_eq_none hout]
  have hmodify : ∀ (r : R) (step : P → R → UpdateResult P R),
      u.modify ⟨thread, r⟩ step = (u, ⟨thread, r⟩, some (unknown thread)) := by
    intro r step
    simp only [modify, onThread_of_size_le hout]
  have hrelease : ∀ (r : R) (step : P → R → ReleaseResult P),
      u.release ⟨thread, r⟩ step = (u, some (unknown thread)) := by
    intro r step
    simp only [release, onThread_of_size_le hout, Option.getD_none]
  constructor
  · intro pc isConditional
    rw [predict, hthread]
    rfl
  · intro pc isConditional
    rw [placeholder, hthread]
    rfl
  · intro r b
    exact hmodify r _
  · intro r b
    exact hmodify r _
  · intro r b
    exact hrelease r _
  · intro r
    exact hrelease r _

theorem threads_of_build {count : Nat} {build : Nat → Except PredictorError P}
    {u : PredictorUnit P} (hbuild : PredictorUnit.build count build = .ok u) :
    u.size = count ∧ ∀ thread < count, ∃ p, build thread = .ok p ∧ u.threads[thread]? = some p := by
  have hsize : u.size = count := by
    obtain ⟨-, hmade⟩ := of_guard_eq_ok hbuild (throw_bind_ne_ok _ _ _)
    obtain ⟨threads, hthreads, h⟩ := of_bind_eq_ok hmade
    obtain rfl := Except.ok.inj h
    have hlength := (forall₂_of_mapM_eq_ok hthreads).length_eq
    rw [List.length_range] at hlength
    exact hlength.symm
  refine ⟨hsize, fun thread hlt => ?_⟩
  obtain ⟨p, hp⟩ : ∃ p, u.threads[thread]? = some p :=
    ⟨_, List.getElem?_eq_getElem (hlt.trans_eq hsize.symm)⟩
  exact ⟨p, build_thread hbuild hp, hp⟩

end PredictorUnit

open UnitSession

theorem UnitSession.runsAlone_of_build {count : Nat} {build : Nat → Except PredictorError P}
    {u : PredictorUnit P} (hbuild : PredictorUnit.build count build = .ok u)
    (calls : List (Nat × Call)) :
    (∀ thread < count, ∃ p, build thread = .ok p ∧ RunsAlone u calls thread p) ∧
      ∀ thread ≥ count, ((start u).run calls).unit.Refuses thread := by
  obtain ⟨hsize, hthreads⟩ := PredictorUnit.threads_of_build hbuild
  constructor
  · intro thread hlt
    obtain ⟨p, hp, hthread⟩ := hthreads thread hlt
    exact ⟨p, hp, runsAlone hthread calls⟩
  · intro thread hge
    apply PredictorUnit.refuses_of_size_le
    rw [size_run]
    exact hsize.trans_le hge

/-- Hardware threads do not interfere.  However the calls of the threads of a unit are interleaved,
each thread goes through what a predictor of its own configuration goes through that receives only
the calls of the thread, in their order, and the resets: predictor, records and replies are equal.
A call of a thread that the unit does not have is refused and changes nothing. -/
theorem threads_run_alone :
    (∀ {count : Nat} {c : Nat → TageScl.Config} {u : PredictorUnit TageScl},
        PredictorUnit.build count (fun thread => (c thread).build) = .ok u →
          ∀ calls : List (Nat × Call),
            (∀ thread < count, ∃ p, (c thread).build = .ok p ∧ RunsAlone u calls thread p) ∧
              ∀ thread ≥ count, ((start u).run calls).unit.Refuses thread) ∧
      ∀ {count : Nat} {c : Nat → Ittage.Config} {u : PredictorUnit Ittage},
        PredictorUnit.build count (fun thread => (c thread).build) = .ok u →
          ∀ calls : List (Nat × Call),
            (∀ thread < count, ∃ p, (c thread).build = .ok p ∧ RunsAlone u calls thread p) ∧
              ∀ thread ≥ count, ((start u).run calls).unit.Refuses thread :=
  ⟨fun hbuild calls => runsAlone_of_build hbuild calls,
    fun hbuild calls => runsAlone_of_build hbuild calls⟩

/-- Two threads with branches in flight at the same addresses, a reset by one of them, and a call of
a third thread. -/
def interleavedRun : List (Nat × Call) :=
  [(0, .predict 0 4 true), (1, .predict 0 4 true), (2, .predict 0 4 true),
    (0, .update 0 ⟨4, .directBranch, .taken, 64⟩), (1, .update 0 ⟨4, .indirectJump, .taken, 32⟩),
    (1, .predict 1 8 false), (0, .commit 0 ⟨4, .directBranch, .taken, 64⟩),
    (1, .update 1 ⟨8, .indirectCall, .taken, 32⟩), (1, .squash 0), (0, .predict 1 4 true),
    (1, .reset), (0, .update 1 ⟨4, .directBranch, .taken, 64⟩), (1, .predict 2 8 true)]

theorem interleavedRun_threads_run_alone :
    (let u : PredictorUnit TageScl := ⟨[TageScl.small none, TageScl.small (some {})]⟩
     ((start u).run interleavedRun).unit.threads.map (·.history.inFlight) = [1, 0] ∧
      ((start u).replies 1 interleavedRun).map (·.error?.isSome) =
        [false, false, false, false, true, false, false] ∧
      RunsAlone u interleavedRun 1 (TageScl.small (some {})) ∧
      ((start u).run interleavedRun).unit.Refuses 2) ∧
    (let u : PredictorUnit Ittage := ⟨[Ittage.small, Ittage.small]⟩
     ((start u).run interleavedRun).unit.threads.map (·.history.inFlight) = [1, 0] ∧
      RunsAlone u interleavedRun 0 Ittage.small ∧
      ((start u).run interleavedRun).unit.Refuses 2) := by
  obtain ⟨htageScl, hittage⟩ := threads_run_alone
  have hbuild : PredictorUnit.build 2 (fun thread =>
      (TageScl.smallConfig (if thread = 0 then none else some {})).build) =
        .ok ⟨[TageScl.small none, TageScl.small (some {})]⟩ := rfl
  have hbuild' : PredictorUnit.build 2 (fun _ => Ittage.smallConfig.build) =
      .ok ⟨[Ittage.small, Ittage.small]⟩ := rfl
  obtain ⟨halone, hunknown⟩ := htageScl hbuild interleavedRun
  obtain ⟨halone', hunknown'⟩ := hittage hbuild' interleavedRun
  refine ⟨⟨by decide +kernel, by decide +kernel, ?_, hunknown 2 le_rfl⟩,
    ⟨by decide +kernel, ?_, hunknown' 2 le_rfl⟩⟩
  · obtain ⟨p, hp, hruns⟩ := halone 1 (by decide)
    obtain rfl := Except.ok.inj hp
    exact hruns
  · obtain ⟨p, hp, hruns⟩ := halone' 0 (by decide)
    obtain rfl := Except.ok.inj hp
    exact hruns

end BranchPrediction
