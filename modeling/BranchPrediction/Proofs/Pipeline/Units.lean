import BranchPrediction.Proofs.Pipeline.Session
import BranchPrediction.Proofs.Validation
import BranchPrediction.PredictorUnit

/-!
# Sessions of a pipeline with a predictor unit

A `UnitSession` is a unit together with the records of the handles that its threads have in use.
Each thread has handles of its own, and a reset is one of every thread.

What the session does to a thread is what the calls of that thread, and the resets, do in a session
with the predictor of the thread alone (`UnitSession.Mirrors`, kept by `mirrors_run`).  So whatever
holds along every session with one predictor holds of each thread of a unit.
-/

namespace BranchPrediction

theorem PredictorUnit.actAt_eq {α β : Type} (action : α → α × β) (list : List α)
    (position : Nat) :
    actAt action list position =
      (list.modify position fun a => (action a).1,
        list[position]?.map fun a => (action a).2) := by
  induction list generalizing position with
  | nil => cases position <;> rfl
  | cons a rest ih =>
      cases position with
      | zero => rfl
      | succ position =>
          rw [actAt, ih]
          simp

/-- A unit in use, with the records of the branches in flight. -/
structure UnitSession (P R : Type) where
  unit : PredictorUnit P
  /-- The record of each handle in use, by thread. -/
  records : Nat → Nat → Option R

namespace UnitSession

variable {P R Q : Type}

def start (u : PredictorUnit P) : UnitSession P R :=
  ⟨u, fun _ _ => none⟩

def put (records : Nat → Nat → Option R) (thread h : Nat) (r? : Option R) :
    Nat → Nat → Option R :=
  fun k => if k = thread then Session.put (records k) h r? else records k

theorem put_same (records : Nat → Nat → Option R) (thread h : Nat) (r? : Option R) :
    put records thread h r? thread = Session.put (records thread) h r? :=
  if_pos rfl

theorem put_of_ne (records : Nat → Nat → Option R) {thread k : Nat} (hne : k ≠ thread) (h : Nat)
    (r? : Option R) : put records thread h r? k = records k :=
  if_neg hne

def hold (s : UnitSession P R) (h : Nat) (made : Except PredictorError (Handle R)) :
    UnitSession P R × Option PredictorError :=
  match made with
  | .ok handle => ({ s with records := put s.records handle.thread h (some handle.record) }, none)
  | .error error => (s, some error)

/-- Change the record of a handle together with the unit. -/
def modify (s : UnitSession P R) (thread h : Nat)
    (step : PredictorUnit P → Handle R → PredictorUnit P × Handle R × Option PredictorError) :
    UnitSession P R × Option PredictorError :=
  match s.records thread h with
  | none => (s, none)
  | some r =>
    match step s.unit ⟨thread, r⟩ with
    | (u, handle, error?) => (⟨u, put s.records handle.thread h (some handle.record)⟩, error?)

def release (s : UnitSession P R) (thread h : Nat)
    (step : PredictorUnit P → Handle R → PredictorUnit P × Option PredictorError) :
    UnitSession P R × Option PredictorError :=
  match s.records thread h with
  | none => (s, none)
  | some r =>
    match step s.unit ⟨thread, r⟩ with
    | (u, error?) => (⟨u, put s.records thread h none⟩, error?)

variable [SpeculativePredictor P R Q]

/-- Carry out one call of a thread, and answer its error.  A reset is one of every thread. -/
def perform (s : UnitSession P R) (thread : Nat) : Call → UnitSession P R × Option PredictorError
  | .predict h pc isConditional =>
    s.hold h ((s.unit.predict thread pc isConditional).map (·.2))
  | .placeholder h pc isConditional => s.hold h (s.unit.placeholder thread pc isConditional)
  | .update h b => s.modify thread h fun u handle => u.update handle b
  | .repair h b => s.modify thread h fun u handle => u.repair handle b
  | .commit h b => s.release thread h fun u handle => u.commit handle b
  | .squash h => s.release thread h PredictorUnit.squash
  | .reset => ({ s with unit := s.unit.reset }, none)

def run (s : UnitSession P R) (calls : List (Nat × Call)) : UnitSession P R :=
  calls.foldl (fun s call => (s.perform call.1 call.2).1) s

/-- What a call of some thread is to another one. -/
def callOf (thread : Nat) : Nat × Call → Option Call
  | (_, .reset) => some .reset
  | (caller, call) => if caller = thread then some call else none

/-! ## One thread of a unit -/

/-- A thread of the unit and its records are those of a session with one predictor. -/
structure Mirrors (s : UnitSession P R) (thread : Nat) (t : Session P R) : Prop where
  predictor : s.unit.threads[thread]? = some t.predictor
  records : s.records thread = t.records

variable {s : UnitSession P R} {t : Session P R} {thread caller : Nat}

theorem thread_eq (hmirrors : s.Mirrors thread t) : s.unit.thread thread = .ok t.predictor := by
  rw [PredictorUnit.thread, hmirrors.predictor]

theorem mirrors_modify (hmirrors : s.Mirrors thread t) (h : Nat)
    (step : P → R → UpdateResult P R) :
    (s.modify thread h fun u handle => u.modify handle step).1.Mirrors thread
        (t.modify h step).1 ∧
      (s.modify thread h fun u handle => u.modify handle step).2 = (t.modify h step).2 := by
  obtain ⟨hpredictor, hrecords⟩ := hmirrors
  simp only [modify, Session.modify, hrecords]
  cases t.records h with
  | none => exact ⟨⟨hpredictor, hrecords⟩, rfl⟩
  | some r =>
      simp only [PredictorUnit.modify, PredictorUnit.onThread, PredictorUnit.actAt_eq, hpredictor,
        Option.map_some, and_true]
      constructor
      · simp [hpredictor]
      · simp only [put_same, hrecords]

theorem mirrors_release (hmirrors : s.Mirrors thread t) (h : Nat) (kept : R → List R)
    (step : P → R → ReleaseResult P) :
    (s.release thread h fun u handle => u.release handle step).1.Mirrors thread
        (t.release h kept step).1 ∧
      (s.release thread h fun u handle => u.release handle step).2 =
        (t.release h kept step).2 := by
  obtain ⟨hpredictor, hrecords⟩ := hmirrors
  simp only [release, Session.release, hrecords]
  cases t.records h with
  | none => exact ⟨⟨hpredictor, hrecords⟩, rfl⟩
  | some r =>
      simp only [PredictorUnit.release, PredictorUnit.onThread, PredictorUnit.actAt_eq, hpredictor,
        Option.map_some, Option.getD_some, and_true]
      constructor
      · simp [hpredictor]
      · simp only [put_same, hrecords]

/-- A call of a thread does to it what it does to the predictor alone, with the same answer. -/
theorem mirrors_perform (hmirrors : s.Mirrors thread t) (call : Call) :
    (s.perform thread call).1.Mirrors thread (t.perform call).1 ∧
      (s.perform thread call).2 = (t.perform call).2 := by
  have hthread := thread_eq hmirrors
  have hput : ∀ (h : Nat) (r? : Option R),
      put s.records thread h r? thread = Session.put t.records h r? := by
    intro h r?
    rw [put_same, hmirrors.records]
  cases call with
  | predict h pc isConditional =>
      simp only [perform, hold, PredictorUnit.predict, hthread]
      exact ⟨⟨hmirrors.predictor, hput h _⟩, rfl⟩
  | placeholder h pc isConditional =>
      simp only [perform, hold, PredictorUnit.placeholder, hthread]
      exact ⟨⟨hmirrors.predictor, hput h _⟩, rfl⟩
  | update h b => exact mirrors_modify hmirrors h _
  | repair h b => exact mirrors_modify hmirrors h _
  | commit h b => exact mirrors_release hmirrors h _ _
  | squash h => exact mirrors_release hmirrors h _ _
  | reset =>
      refine ⟨⟨?_, hmirrors.records⟩, rfl⟩
      simp only [perform, PredictorUnit.reset, List.getElem?_map, hmirrors.predictor]
      rfl

theorem mirrors_modify_of_ne (hmirrors : s.Mirrors thread t) (hne : thread ≠ caller) (h : Nat)
    (step : P → R → UpdateResult P R) :
    (s.modify caller h fun u handle => u.modify handle step).1.Mirrors thread t := by
  unfold modify
  split
  · exact hmirrors
  · simp only [PredictorUnit.modify, PredictorUnit.onThread, PredictorUnit.actAt_eq]
    have hpredictor := hmirrors.predictor
    have hrecords := hmirrors.records
    have hkept : ∀ f : P → P, (s.unit.threads.modify caller f)[thread]? = some t.predictor := by
      intro f
      rw [List.getElem?_modify_ne _ _ hne.symm, hpredictor]
    cases s.unit.threads[caller]? with
    | none => exact ⟨hkept _, (put_of_ne s.records hne h _).trans hrecords⟩
    | some p => exact ⟨hkept _, (put_of_ne s.records hne h _).trans hrecords⟩

theorem mirrors_release_of_ne (hmirrors : s.Mirrors thread t) (hne : thread ≠ caller) (h : Nat)
    (step : P → R → ReleaseResult P) :
    (s.release caller h fun u handle => u.release handle step).1.Mirrors thread t := by
  unfold release
  split
  · exact hmirrors
  · simp only [PredictorUnit.release, PredictorUnit.onThread, PredictorUnit.actAt_eq]
    refine ⟨?_, (put_of_ne s.records hne h _).trans hmirrors.records⟩
    exact (List.getElem?_modify_ne _ _ hne.symm).trans hmirrors.predictor

/-- A call of another thread leaves a thread alone, unless it is a reset. -/
theorem mirrors_perform_of_ne (hmirrors : s.Mirrors thread t) (hne : thread ≠ caller)
    {call : Call} (hcall : call ≠ .reset) : (s.perform caller call).1.Mirrors thread t := by
  have hhold : ∀ (h : Nat) (r : R),
      Mirrors { s with records := put s.records caller h (some r) } thread t := by
    intro h r
    exact ⟨hmirrors.predictor, (put_of_ne s.records hne h _).trans hmirrors.records⟩
  cases call with
  | predict h pc isConditional =>
      simp only [perform, PredictorUnit.predict]
      cases s.unit.thread caller with
      | error error => exact hmirrors
      | ok p => exact hhold h _
  | placeholder h pc isConditional =>
      simp only [perform, PredictorUnit.placeholder]
      cases s.unit.thread caller with
      | error error => exact hmirrors
      | ok p => exact hhold h _
  | update h b => exact mirrors_modify_of_ne hmirrors hne h _
  | repair h b => exact mirrors_modify_of_ne hmirrors hne h _
  | commit h b => exact mirrors_release_of_ne hmirrors hne h _
  | squash h => exact mirrors_release_of_ne hmirrors hne h _
  | reset => exact absurd rfl hcall

/-- Along a session with a unit, a thread goes through the session of its own calls. -/
theorem mirrors_run (hmirrors : s.Mirrors thread t) (calls : List (Nat × Call)) :
    (s.run calls).Mirrors thread (t.run (calls.filterMap (callOf thread))) := by
  induction calls generalizing s t with
  | nil => exact hmirrors
  | cons call calls ih =>
      obtain ⟨caller, call⟩ := call
      by_cases hown : callOf thread (caller, call) = none
      · rw [List.filterMap_cons_none hown]
        have hcall : call ≠ .reset := by
          rintro rfl
          cases hown
        have hne : thread ≠ caller := by
          rintro rfl
          cases call <;> simp [callOf] at hown
        exact ih (mirrors_perform_of_ne hmirrors hne hcall)
      · obtain ⟨own, hown⟩ := Option.ne_none_iff_exists'.1 hown
        rw [List.filterMap_cons_some hown]
        refine ih (s := (s.perform caller call).1) ?_
        by_cases hreset : call = .reset
        · -- a reset is the same call whichever thread makes it
          subst hreset
          obtain rfl := Option.some.inj hown
          exact (mirrors_perform hmirrors .reset).1
        · obtain ⟨rfl, rfl⟩ : caller = thread ∧ call = own := by
            cases call <;> simp_all [callOf]
          exact (mirrors_perform hmirrors call).1

/-! ## All threads of a unit -/

theorem mirrors_start {u : PredictorUnit P} {p : P} (hthread : u.threads[thread]? = some p) :
    (start u : UnitSession P R).Mirrors thread (Session.start p) :=
  ⟨hthread, rfl⟩

theorem size_perform (s : UnitSession P R) (caller : Nat) (call : Call) :
    (s.perform caller call).1.unit.size = s.unit.size := by
  have hhold : ∀ (h : Nat) (made : Except PredictorError (Handle R)),
      (s.hold h made).1.unit.size = s.unit.size := by
    intro h made
    cases made <;> rfl
  have hmodify : ∀ (h : Nat) (step : P → R → UpdateResult P R),
      (s.modify caller h fun u handle => u.modify handle step).1.unit.size = s.unit.size := by
    intro h step
    unfold modify
    split
    · rfl
    · simp only [PredictorUnit.modify, PredictorUnit.onThread, PredictorUnit.actAt_eq]
      cases s.unit.threads[caller]? <;> simp [PredictorUnit.size]
  have hrelease : ∀ (h : Nat) (step : P → R → ReleaseResult P),
      (s.release caller h fun u handle => u.release handle step).1.unit.size = s.unit.size := by
    intro h step
    unfold release
    split
    · rfl
    · simp [PredictorUnit.release, PredictorUnit.onThread, PredictorUnit.actAt_eq,
        PredictorUnit.size]
  cases call with
  | predict h pc isConditional => exact hhold h _
  | placeholder h pc isConditional => exact hhold h _
  | update h b => exact hmodify h _
  | repair h b => exact hmodify h _
  | commit h b => exact hrelease h _
  | squash h => exact hrelease h _
  | reset => simp [perform, PredictorUnit.reset, PredictorUnit.size]

theorem size_run (s : UnitSession P R) (calls : List (Nat × Call)) :
    (s.run calls).unit.size = s.unit.size := by
  induction calls generalizing s with
  | nil => rfl
  | cons call calls ih => exact (ih _).trans (s.size_perform call.1 call.2)

end UnitSession

/-! ## Building a unit -/

theorem forall₂_of_mapM_eq_ok {α β ε : Type} {f : α → Except ε β} {as : List α} {bs : List β}
    (h : as.mapM f = .ok bs) : List.Forall₂ (fun a b => f a = .ok b) as bs := by
  induction as generalizing bs with
  | nil =>
      obtain rfl := Except.ok.inj h
      exact .nil
  | cons a as ih =>
      rw [List.mapM_cons] at h
      obtain ⟨b, hfirst, h⟩ := of_bind_eq_ok h
      obtain ⟨bs, hrest, h⟩ := of_bind_eq_ok h
      obtain rfl := Except.ok.inj h
      exact .cons hfirst (ih hrest)

theorem PredictorUnit.build_thread {P : Type} {count : Nat}
    {build : Nat → Except PredictorError P} {u : PredictorUnit P}
    (hbuild : PredictorUnit.build count build = .ok u) {thread : Nat} {p : P}
    (hthread : u.threads[thread]? = some p) : build thread = .ok p := by
  obtain ⟨-, hbuild⟩ := of_guard_eq_ok hbuild (throw_bind_ne_ok _ _ _)
  obtain ⟨threads, hthreads, h⟩ := of_bind_eq_ok hbuild
  obtain rfl := Except.ok.inj h
  change threads[thread]? = some p at hthread
  obtain ⟨hlength, hall⟩ := List.forall₂_iff_get.1 (forall₂_of_mapM_eq_ok hthreads)
  obtain ⟨hlt, hp⟩ := List.getElem?_eq_some_iff.1 hthread
  have hlt' : thread < (List.range count).length := by omega
  have := hall thread hlt' hlt
  simp only [List.get_eq_getElem, List.getElem_range] at this
  rw [this, ← hp]

end BranchPrediction
