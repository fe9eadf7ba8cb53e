import BranchPrediction.Proofs.Pipeline.Keepers
import BranchPrediction.Proofs.Pipeline.Records

/-!
# What later steps see of a record

Until its branch commits, a record matters little.  It can be undone, and be applied again; for both
a small part of it is enough, its `trace`, which a lookup does not change (`Traces`).  Only a branch
that advances an iteration count of the loop predictor exposes more, namely the loop lookup.

Two sessions that differ in one record, and not in its trace, therefore stay the same but for that
record, as long as the calls spare it (`Traces.run_congr`).
-/

namespace BranchPrediction

open SteppedPredictor HistoryKeeper

variable {P R Q T V : Type} [SpeculativePredictor P R Q] [SteppedPredictor P]

/-- Before its branch commits, a record matters by its `trace` only: to be undone, and to be applied
with a branch that does not expose its `view` besides.  Records are `Plain`, so that a lookup leaves
no trace. -/
structure Traces (I : P → Prop) (Plain : R → Prop) (exposes : Branch → Bool) (trace : R → T)
    (view : R → V) : Prop where
  kept : KeptRecords I Plain
  contribution?_eq : ∀ {r r' : R}, trace r = trace r' → contribution? P r = contribution? P r'
  undo_of_none : ∀ (p : P) {r : R}, contribution? P r = none → undo p r = (p, r)
  trace_finalize : ∀ (p : P) {r : R}, Plain r → contribution? P r = none → ∀ pc : UInt64,
    trace (finalize p r pc) = trace r
  undo_congr : ∀ (p : P) {r r' : R}, trace r = trace r' →
    (undo p r).1 = (undo p r').1 ∧ trace (undo p r).2 = trace (undo p r').2
  view_undone : ∀ (p : P) (r : R), view (undo p r).2 = view r
  apply_congr : ∀ {p : P} {r r' : R} {b : Branch}, I p → (exposes b = true → view r = view r') →
    trace r = trace r' →
    (apply p r b).1 = (apply p r' b).1 ∧ trace (apply p r b).2 = trace (apply p r' b).2

def Call.Spares (exposes : Branch → Bool) (view : R → V) (h : Nat) (s t : Session P R) :
    Call → Prop
  | update k b | repair k b => k = h → exposes b = true →
    ∀ r r', s.records h = some r → t.records h = some r' →
      view (finalize s.predictor r b.pc) = view (finalize t.predictor r' b.pc)
  | commit k _ => k ≠ h
  | _ => True

/-- All calls spare the record of a handle, when two sessions carry them out. -/
def Session.Spared (exposes : Branch → Bool) (view : R → V) (h : Nat) (s t : Session P R) :
    List Call → Prop
  | [] => True
  | call :: calls => call.Spares exposes view h s t ∧
    Spared exposes view h (s.perform call).1 (t.perform call).1 calls

/-- A record is spared if it is neither committed nor updated with a branch that exposes it. -/
theorem Session.spared_of_forall {exposes : Branch → Bool} (view : R → V) {h : Nat}
    (s t : Session P R) {calls : List Call}
    (hquiet : ∀ call ∈ calls, (∀ b, call ≠ .commit h b) ∧
      ∀ repairs b, call = .revise h repairs b → exposes b = false) :
    s.Spared exposes view h t calls := by
  induction calls generalizing s t with
  | nil => trivial
  | cons call calls ih =>
      obtain ⟨hcommit, hrevise⟩ := hquiet call List.mem_cons_self
      refine ⟨?_, ih _ _ fun later hlater => hquiet later (List.mem_cons_of_mem call hlater)⟩
      cases call with
      | update k b =>
          rintro rfl hexposes
          rw [hrevise false b rfl] at hexposes
          cases hexposes
      | repair k b =>
          rintro rfl hexposes
          rw [hrevise true b rfl] at hexposes
          cases hexposes
      | commit k b =>
          rintro rfl
          exact hcommit b rfl
      | predict | placeholder | squash | reset => trivial

theorem finalize_countRepair (p : P) (r : R) (pc : UInt64) :
    finalize (countRepair p) r pc = finalize p r pc := by
  rw [← finalize_forget (countRepair p), forget_countRepair, finalize_forget]

/-- The sessions have the same predictor and the same records, but for one of which only the trace
is the same. -/
structure Session.SameBut (trace : R → T) (h : Nat) (s t : Session P R) : Prop where
  predictor : s.predictor = t.predictor
  records : ∀ k, k ≠ h → s.records k = t.records k
  record : (s.records h).map trace = (t.records h).map trace

namespace Session.SameBut

variable {trace : R → T} {h : Nat} {s t : Session P R}

theorem put (hst : s.SameBut trace h t) (p : P) {k : Nat} {r? r'? : Option R}
    (hsame : k ≠ h → r? = r'?) (htrace : r?.map trace = r'?.map trace)
    (committed committed' : List R) :
    SameBut trace h (⟨p, Session.put s.records k r?, committed⟩ : Session P R)
      ⟨p, Session.put t.records k r'?, committed'⟩ := by
  refine ⟨rfl, ?_, ?_⟩
  · intro i hi
    by_cases hik : i = k
    · subst hik
      simp only [put_same, hsame hi]
    · simp only [put_of_ne _ hik, hst.records i hi]
  · by_cases hk : h = k
    · subst hk
      simpa only [put_same] using htrace
    · simpa only [put_of_ne _ hk] using hst.record

theorem record_cases (hst : s.SameBut trace h t) (k : Nat) :
    s.records k = t.records k ∨
      k = h ∧ ∃ r r', s.records k = some r ∧ t.records k = some r' ∧ trace r = trace r' := by
  by_cases hk : k = h
  · subst hk
    have hrecord := hst.record
    cases hr : s.records k with
    | none =>
        rw [hr] at hrecord
        exact .inl (Option.map_eq_none_iff.1 hrecord.symm).symm
    | some r =>
        rw [hr] at hrecord
        obtain ⟨r', hr', htrace⟩ := Option.map_eq_some_iff.1 hrecord.symm
        exact .inr ⟨rfl, r, r', rfl, hr', htrace.symm⟩
  · exact .inl (hst.records k hk)

/-- A step that answers the same for records of the same trace keeps sessions the same. -/
theorem modify (hst : s.SameBut trace h t) (k : Nat) {step : P → R → UpdateResult P R}
    (hstep : k = h → ∀ r r', s.records k = some r → t.records k = some r' → trace r = trace r' →
      (step s.predictor r).predictor = (step s.predictor r').predictor ∧
        (step s.predictor r).error? = (step s.predictor r').error? ∧
        trace (step s.predictor r).record = trace (step s.predictor r').record) :
    (s.modify k step).1.SameBut trace h (t.modify k step).1 ∧
      (s.modify k step).2 = (t.modify k step).2 := by
  unfold Session.modify
  rw [← hst.predictor]
  rcases hst.record_cases k with hsame | ⟨hk, r, r', hr, hr', htrace⟩
  · rw [← hsame]
    cases s.records k with
    | none => exact ⟨hst, rfl⟩
    | some r => exact ⟨hst.put _ (fun _ => rfl) rfl _ _, rfl⟩
  · obtain ⟨hpredictor, herror, hleft⟩ := hstep hk r r' hr hr' htrace
    rw [hr, hr']
    simp only [hpredictor, herror]
    refine ⟨hst.put _ (fun hne => (hne hk).elim) ?_ _ _, trivial⟩
    exact congrArg some hleft

theorem release (hst : s.SameBut trace h t) (k : Nat) (kept : R → List R)
    {step : P → R → ReleaseResult P}
    (hstep : k = h → ∀ r r', s.records k = some r → t.records k = some r' → trace r = trace r' →
      step s.predictor r = step s.predictor r') :
    (s.release k kept step).1.SameBut trace h (t.release k kept step).1 ∧
      (s.release k kept step).2 = (t.release k kept step).2 := by
  unfold Session.release
  rw [← hst.predictor]
  rcases hst.record_cases k with hsame | ⟨hk, r, r', hr, hr', htrace⟩
  · rw [← hsame]
    cases s.records k with
    | none => exact ⟨hst, rfl⟩
    | some r => exact ⟨hst.put _ (fun _ => rfl) rfl _ _, rfl⟩
  · simp only [hr, hr', hstep hk r r' hr hr' htrace]
    exact ⟨hst.put _ (fun _ => rfl) rfl _ _, trivial⟩

end Session.SameBut

namespace Traces

variable {I : P → Prop} {Plain : R → Prop} {exposes : Branch → Bool} {trace : R → T}
  {view : R → V}

theorem trace_finalize_of_fitting (traces : Traces I Plain exposes trace view) {p : P} {r : R}
    (hr : Fitting p r) (hplain : Plain r) (q : P) (pc : UInt64) :
    trace (finalize q r pc) = trace r := by
  rcases hr.definite with hnone | hdefinite
  · exact traces.trace_finalize q hplain hnone pc
  · rw [hdefinite]

variable [HistoryKeeper P] {Sound : P → Prop} {bits : Branch → UInt64 × Nat}

theorem rollbackError?_congr (traces : Traces I Plain exposes trace view)
    (laws : KeepsHistory Sound) (p : P) {r r' : R} (htrace : trace r = trace r') :
    rollbackError? p r = rollbackError? p r' := by
  rw [laws.rollbackError?_eq, laws.rollbackError?_eq, checkpoint?, checkpoint?,
    traces.contribution?_eq htrace]

theorem update_congr (traces : Traces I Plain exposes trace view) (laws : KeepsHistory Sound)
    {p : P} (hp : I p) {r r' : R} (hr : Fitting p r) (hr' : Fitting p r') (hplain : Plain r)
    (hplain' : Plain r') (htrace : trace r = trace r') {b : Branch}
    (hview : exposes b = true → view (finalize p r b.pc) = view (finalize p r' b.pc)) :
    (SpeculativePredictor.update p r b).predictor = (SpeculativePredictor.update p r' b).predictor ∧
      (SpeculativePredictor.update p r b).error? = (SpeculativePredictor.update p r' b).error? ∧
      trace (SpeculativePredictor.update p r b).record =
        trace (SpeculativePredictor.update p r' b).record := by
  have hfinal : trace (finalize p r b.pc) = trace (finalize p r' b.pc) := by
    rw [traces.trace_finalize_of_fitting hr hplain, traces.trace_finalize_of_fitting hr' hplain',
      htrace]
  obtain ⟨hundo, hundone⟩ := traces.undo_congr p hfinal
  have hview' : exposes b = true → view (undo p (finalize p r b.pc)).2 =
      view (undo p (finalize p r' b.pc)).2 := by
    rw [traces.view_undone, traces.view_undone]
    exact hview
  obtain ⟨happly, happlied⟩ :=
    traces.apply_congr (traces.kept.kept.undo hp (finalize p r' b.pc)) hview' hundone
  rw [update_eq, update_eq, hr.accepted, hr'.accepted, traces.rollbackError?_congr laws p hfinal]
  simp only [Bool.not_true, Bool.false_eq_true, if_false, hundo]
  split
  · exact ⟨rfl, rfl, hfinal⟩
  · split
    · exact ⟨rfl, rfl, hundone⟩
    · exact ⟨happly, rfl, happlied⟩

theorem squash_congr (traces : Traces I Plain exposes trace view) (laws : KeepsHistory Sound)
    {p : P} {r r' : R} (hr : Fitting p r) (hr' : Fitting p r') (htrace : trace r = trace r') :
    SpeculativePredictor.squash p r = SpeculativePredictor.squash p r' := by
  rw [squash_eq, squash_eq, hr.accepted, hr'.accepted, traces.rollbackError?_congr laws p htrace,
    (traces.undo_congr p htrace).1]

section Sessions

variable {s t : Session P R} {h : Nat}

/-- Calls that spare the record of a handle cannot tell it from one of the same trace. -/
theorem perform_congr (traces : Traces I Plain exposes trace view) (laws : KeepsHistory Sound)
    (hs : s.Fits Sound bits) (ht : t.Fits Sound bits) (hs' : s.Satisfies I Plain)
    (ht' : t.Satisfies I Plain) (hst : s.SameBut trace h t) {call : Call}
    (hspares : call.Spares exposes view h s t) :
    (s.perform call).1.SameBut trace h (t.perform call).1 ∧
      (s.perform call).2 = (t.perform call).2 := by
  have hfits : ∀ {k : Nat} {r : R}, t.records k = some r → Fitting s.predictor r := by
    intro k r hr
    rw [hst.predictor]
    exact ht.fitting hr
  cases call with
  | predict k pc isConditional =>
      simp only [Session.perform, hst.predictor]
      exact ⟨hst.put _ (fun _ => rfl) rfl _ _, trivial⟩
  | placeholder k pc isConditional =>
      simp only [Session.perform, hst.predictor]
      exact ⟨hst.put _ (fun _ => rfl) rfl _ _, trivial⟩
  | update k b =>
      refine hst.modify k fun hk r r' hr hr' htrace => ?_
      subst hk
      refine traces.update_congr laws hs'.predictor (hs.fitting hr) (hfits hr') (hs'.records hr)
        (ht'.records hr') htrace fun hexposes => ?_
      rw [hspares rfl hexposes r r' hr hr', hst.predictor]
  | repair k b =>
      refine hst.modify k fun hk r r' hr hr' htrace => ?_
      simp only [repair_eq]
      have hcounted : ∀ {r : R}, Fitting s.predictor r → Fitting (countRepair s.predictor) r :=
        fun hr => ⟨((laws.kept_accepts _).countRepair ⟨hs.sound, hr.accepted⟩).2, hr.definite⟩
      subst hk
      refine traces.update_congr laws (traces.kept.kept.countRepair hs'.predictor)
        (hcounted (hs.fitting hr)) (hcounted (hfits hr')) (hs'.records hr) (ht'.records hr') htrace
        fun hexposes => ?_
      rw [finalize_countRepair, finalize_countRepair, hspares rfl hexposes r r' hr hr',
        hst.predictor]
  | commit k b => exact hst.release k _ fun hk => (hspares hk).elim
  | squash k =>
      refine hst.release k _ fun hk r r' hr hr' htrace => ?_
      exact traces.squash_congr laws (hs.fitting hr) (hfits hr') htrace
  | reset =>
      simp only [Session.perform, hst.predictor]
      exact ⟨⟨rfl, hst.records, hst.record⟩, trivial⟩

theorem run_congr (traces : Traces I Plain exposes trace view) (laws : KeepsHistory Sound)
    (hs : s.Fits Sound bits) (ht : t.Fits Sound bits) (hs' : s.Satisfies I Plain)
    (ht' : t.Satisfies I Plain) (hst : s.SameBut trace h t) {calls : List Call}
    (hspared : s.Spared exposes view h t calls) :
    (s.run calls).SameBut trace h (t.run calls) ∧ s.errors calls = t.errors calls := by
  induction calls generalizing s t with
  | nil => exact ⟨hst, rfl⟩
  | cons call calls ih =>
      obtain ⟨hspares, hspared⟩ := hspared
      obtain ⟨hnext, herror⟩ := traces.perform_congr laws hs ht hs' ht' hst hspares
      obtain ⟨hrun, herrors⟩ := ih (laws.perform_timeline hs call).1
        (laws.perform_timeline ht call).1 (traces.kept.perform hs' call)
        (traces.kept.perform ht' call) hnext hspared
      exact ⟨hrun, by rw [Session.errors, Session.errors, herror, herrors]⟩

end Sessions

end Traces

/-! ## Both predictors -/

namespace Ittage

/-- A record of ITTAGE matters by its contribution only. -/
theorem traces : Traces (fun _ : Ittage => True) (fun _ : Record => True) (fun _ => false)
    (fun r : Record => r.contribution?) (fun _ => ()) where
  kept := ⟨⟨fun _ _ _ => trivial, fun _ _ => trivial, fun _ _ _ => trivial, fun _ => trivial,
    fun _ => trivial⟩, fun _ _ _ _ => trivial, fun _ _ _ => trivial, fun _ _ _ => trivial,
    fun _ _ => trivial⟩
  contribution?_eq htrace := htrace
  undo_of_none p r hnone := undo_of_none p hnone
  trace_finalize p r _ hnone pc := by
    rw [show r.contribution? = none from hnone]
    change (finalize p r pc).contribution? = none
    unfold finalize
    split
    · rfl
    · exact hnone
  undo_congr p r r' htrace := by
    change (undo p r).1 = (undo p r').1 ∧ (undo p r).2.contribution? = (undo p r').2.contribution?
    cases hc : r.contribution? with
    | none =>
        rw [undo_of_none p hc, undo_of_none p (htrace.symm.trans hc)]
        exact ⟨rfl, htrace⟩
    | some contribution =>
        rw [undo_eq p hc, undo_eq p (htrace.symm.trans hc)]
        exact ⟨rfl, rfl⟩
  view_undone _ _ := rfl
  apply_congr {p r r' b} _ _ _ := by
    change (apply p r b).1 = (apply p r' b).1 ∧
      (apply p r b).2.contribution? = (apply p r' b).2.contribution?
    rw [apply_eq, apply_eq]
    exact ⟨rfl, rfl⟩

end Ittage

namespace TageScl

/-- The contribution of a record, and the loop lookup by which an iteration count was advanced. -/
def trace (r : Record) : Option Contribution × Option LoopPredictor.Lookup :=
  (r.contribution?, if r.loopAdvanced then some r.loop else none)

/-- A record without a contribution has not advanced an iteration count. -/
def Plain (r : Record) : Prop :=
  r.contribution? = none → r.loopAdvanced = false

/-- The branch advances an iteration count of the loop predictor, if there is one. -/
def Config.advances (c : Config) (b : Branch) : Bool :=
  b.kind.isConditional && c.loops?.isSome

theorem kept_loops (hasLoops : Bool) : Kept fun p : TageScl => p.loops?.isSome = hasLoops where
  apply {p} h r b := by
    change (apply p r b).1.loops?.isSome = hasLoops
    rw [loops?_apply]
    split
    · rwa [Option.isSome_map]
    · exact h
  undo {p} h r := by
    change (undo p r).1.loops?.isSome = hasLoops
    cases hc : r.contribution? with
    | none => rwa [undo_of_none p hc]
    | some contribution =>
        rw [loops?_undo p hc]
        split
        · rwa [Option.isSome_map]
        · exact h
  conclude {p} h r b := by
    change (conclude p r b).loops?.isSome = hasLoops
    rw [loops?_conclude]
    split
    · rwa [Option.isSome_map]
    · exact h
  countRepair h := h
  reset {p} h := by
    rcases p with ⟨config, tage, loops?, corrector?, history, random, stats⟩
    exact Option.isSome_map.trans h

theorem keptRecords_plain (hasLoops : Bool) :
    KeptRecords (fun p : TageScl => p.loops?.isSome = hasLoops) Plain where
  kept := kept_loops hasLoops
  made _ predicted pc isConditional _ := by
    cases predicted with
    | true => rfl
    | false => rfl
  finalized {p r} _ hr pc := by
    change Plain (finalize p r pc)
    unfold finalize
    split
    · exact fun _ => rfl
    · exact hr
  applied {p r} _ _ b hnone := by
    change (apply p r b).2.contribution? = none at hnone
    rw [apply_eq] at hnone
    cases hnone
  undone {p r} _ hr := by
    change Plain (undo p r).2
    cases hc : r.contribution? with
    | none => rwa [undo_of_none p hc]
    | some contribution =>
        rw [undo_eq p hc]
        exact fun _ => rfl

/-- A record of TAGE-SC-L matters by its contribution, and by its loop lookup once an iteration
count is advanced. -/
theorem traces (c : Config) : Traces (fun p : TageScl => p.loops?.isSome = c.loops?.isSome) Plain
    c.advances trace (fun r => r.loop) where
  kept := keptRecords_plain _
  contribution?_eq htrace := congrArg Prod.fst htrace
  undo_of_none p r hnone := undo_of_none p hnone
  trace_finalize p r hplain hnone pc := by
    change trace (finalize p r pc) = trace r
    unfold finalize
    split
    · rw [trace, trace, show r.contribution? = none from hnone, hplain hnone]
      rfl
    · rfl
  undo_congr p r r' htrace := by
    change (undo p r).1 = (undo p r').1 ∧ trace (undo p r).2 = trace (undo p r').2
    obtain ⟨hcontribution, hloop⟩ := Prod.mk.inj htrace
    cases hc : r.contribution? with
    | none =>
        rw [undo_of_none p hc, undo_of_none p (hcontribution.symm.trans hc)]
        exact ⟨rfl, htrace⟩
    | some contribution =>
        have hloops : (if r.loopAdvanced then p.loops?.map (·.restore r.loop) else p.loops?) =
            if r'.loopAdvanced then p.loops?.map (·.restore r'.loop) else p.loops? := by
          cases hr : r.loopAdvanced with
          | true =>
              cases hr' : r'.loopAdvanced with
              | true =>
                  simp only [hr, hr', if_true, Option.some.injEq] at hloop
                  simp only [if_true, hloop]
              | false => simp [hr, hr'] at hloop
          | false =>
              cases hr' : r'.loopAdvanced with
              | true => simp [hr, hr'] at hloop
              | false => rfl
        rw [undo_eq p hc, undo_eq p (hcontribution.symm.trans hc), hloops]
        exact ⟨rfl, rfl⟩
  view_undone p r := by
    change (undo p r).2.loop = r.loop
    cases hc : r.contribution? with
    | none => rw [undo_of_none p hc]
    | some contribution => rw [undo_eq p hc]
  apply_congr {p r r' b} hp hview htrace := by
    change (apply p r b).1 = (apply p r' b).1 ∧ trace (apply p r b).2 = trace (apply p r' b).2
    have hadvances : c.advances b = p.advances b := by
      rw [TageScl.advances, hp]
      rfl
    rw [hadvances] at hview
    rw [apply_eq, apply_eq]
    cases hb : p.advances b with
    | true =>
        simp only [hview hb, trace, Bool.or_true, and_self]
    | false =>
        simp only [trace, Bool.or_false]
        rw [(Prod.mk.inj htrace).2]
        exact ⟨rfl, rfl⟩

end TageScl

end BranchPrediction
