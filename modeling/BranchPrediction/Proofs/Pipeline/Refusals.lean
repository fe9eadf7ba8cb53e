import BranchPrediction.Proofs.Pipeline.Capacity
import BranchPrediction.Proofs.Pipeline.Disorder
import BranchPrediction.Proofs.Pipeline.Firm
import BranchPrediction.Proofs.Pipeline.Replay
import BranchPrediction.Proofs.Pipeline.Traces

/-!
# What refused calls leave behind

A refused commit or squash leaves the predictor as it was, and so does an update or a repair that is
refused as out of order.  One that overflows the history has by then undone the earlier contribution
of its record, and looked the branch up if that had not been done (`Session.Overflowed`).

The early lookup can be seen later.  Not before the branch commits, however, unless it advances an
iteration count of the loop predictor for which a new lookup would find another entry.
-/

namespace BranchPrediction

open SteppedPredictor HistoryKeeper

variable {P R Q T V : Type} [SpeculativePredictor P R Q] [SteppedPredictor P]

theorem SpeculativeHistory.appendError?_eq_some {h : SpeculativeHistory} {n : Nat} (hn : n ≤ 64)
    {error : PredictorError} (herror : h.appendError? n = some error) :
    ∃ total capacity, error = .protocol (.historyOverflow total capacity) := by
  rw [appendError?, if_neg (by omega), overflow?] at herror
  split at herror
  · exact ⟨_, _, (Option.some.inj herror).symm⟩
  · cases herror

namespace Session

/-- The session in which a repair is counted. -/
def counted (s : Session P R) (repairs : Bool) : Session P R :=
  if repairs then { s with predictor := countRepair s.predictor } else s

/-- The session without the contribution of a record, which is put back at its handle. -/
def withdraw (s : Session P R) (h : Nat) (r : R) : Session P R where
  predictor := (undo s.predictor r).1
  records := put s.records h (some (undo s.predictor r).2)
  committed := s.committed

theorem records_counted (s : Session P R) (repairs : Bool) :
    (s.counted repairs).records = s.records := by
  cases repairs with
  | true => rfl
  | false => rfl

/-- A repair is counted first, and then it is an update. -/
theorem perform_revise {s : Session P R} {h : Nat} {r : R} (hrecord : s.records h = some r)
    (repairs : Bool) (b : Branch) :
    s.perform (.revise h repairs b) = (s.counted repairs).perform (.update h b) := by
  cases repairs with
  | true =>
      change s.perform (.repair h b) = _
      simp only [counted, if_true, perform, modify, hrecord, repair_eq]
  | false => rfl

omit [SteppedPredictor P] in
theorem perform_revise_of_none {s : Session P R} {h : Nat} (hrecord : s.records h = none)
    (repairs : Bool) (b : Branch) : s.perform (.revise h repairs b) = (s, none) := by
  cases repairs with
  | true =>
      change s.perform (.repair h b) = _
      simp only [perform, modify, hrecord]
  | false =>
      change s.perform (.update h b) = _
      simp only [perform, modify, hrecord]

end Session

/-! ## Refused calls -/

namespace KeepsHistory

variable [HistoryKeeper P] {Sound : P → Prop} {bits : Branch → UInt64 × Nat} {s : Session P R}
  {h : Nat} {r : R} {error : PredictorError}

theorem fits_counted (laws : KeepsHistory Sound) (hs : s.Fits Sound bits) (repairs : Bool) :
    (s.counted repairs).Fits Sound bits := by
  cases repairs with
  | true =>
      have hself := laws.fits_put hs (fun hI hp => hI.countRepair hp) 0
        (fun r (hr : s.records 0 = some r) => hs.fitting hr) s.committed
      rwa [Session.put_eq_self rfl] at hself
  | false => exact hs

theorem fits_withdraw (laws : KeepsHistory Sound) (hs : s.Fits Sound bits)
    (hr : Fitting s.predictor r) (h : Nat) : (s.withdraw h r).Fits Sound bits := by
  refine laws.fits_put hs (fun hI hp => hI.undo hp r) h ?_ s.committed
  intro r' hr'
  obtain rfl := Option.some.inj hr'
  refine ⟨?_, .inl ?_⟩
  · rw [laws.accepts_undone]
    exact hr.accepted
  · exact Option.map_eq_none_iff.1 (laws.checkpoint?_undone s.predictor r)

/-- A commit that is refused gives up the record and does nothing else. -/
theorem commit_refused (hs : s.Fits Sound bits) {b : Branch}
    (herror : (s.perform (.commit h b)).2 = some error) :
    (s.perform (.commit h b)).1 = { s with records := Session.put s.records h none } := by
  cases hrecord : s.records h with
  | none => simp [Session.perform, Session.release, hrecord] at herror
  | some r =>
      have hr := hs.fitting hrecord
      simp only [Session.perform, Session.release, hrecord, commit_eq, hr.accepted, Bool.not_true,
        Bool.false_eq_true, if_false] at herror ⊢
      cases hc : (contribution? P (finalize s.predictor r b.pc)).isSome with
      | true => simp [hc] at herror
      | false =>
          simp only [hc, Bool.false_eq_true, if_false] at herror ⊢
          cases happend : appendError? s.predictor b with
          | none => simp [happend] at herror
          | some _ => rfl

theorem squash_refused (hs : s.Fits Sound bits)
    (herror : (s.perform (.squash h)).2 = some error) :
    (s.perform (.squash h)).1 = { s with records := Session.put s.records h none } := by
  cases hrecord : s.records h with
  | none => simp [Session.perform, Session.release, hrecord] at herror
  | some r =>
      have hr := hs.fitting hrecord
      simp only [Session.perform, Session.release, hrecord, squash_eq, hr.accepted, Bool.not_true,
        Bool.false_eq_true, if_false] at herror ⊢
      cases hrollback : rollbackError? s.predictor r with
      | none => simp [hrollback] at herror
      | some _ => rfl

/-- An update is refused out of order, and nothing happens; or for overflow, once the branch has
been looked up and its earlier contribution undone. -/
theorem update_refused (laws : KeepsHistory Sound) (hs : s.Fits Sound bits)
    (hbits : ∀ b, (bits b).2 ≤ 64) (hrecord : s.records h = some r) {b : Branch}
    (herror : (s.perform (.update h b)).2 = some error) :
    (isOutOfOrder (some error) = true ∧ (s.perform (.update h b)).1 = s) ∨
      (∃ total capacity, error = .protocol (.historyOverflow total capacity)) ∧
        (s.perform (.update h b)).1 = s.withdraw h (finalize s.predictor r b.pc) := by
  have hr := hs.fitting hrecord
  cases hdisorder : (history s.predictor).disordered? (checkpoint? P r) with
  | some violation =>
      left
      rw [laws.update_of_disordered? hs hrecord hdisorder] at herror ⊢
      obtain ⟨expected, found, rfl⟩ := Timeline.disordered?_eq_some hdisorder
      obtain rfl := Option.some.inj herror
      exact ⟨rfl, rfl⟩
  | none =>
      right
      have hrollback : rollbackError? s.predictor (finalize s.predictor r b.pc) = none := by
        rw [laws.rollbackError?_eq, laws.checkpoint?_finalize hr, hdisorder]
        rfl
      simp only [Session.perform, Session.modify, hrecord, update_eq, hr.accepted, Bool.not_true,
        Bool.false_eq_true, if_false, hrollback] at herror ⊢
      cases happend : appendError? (undo s.predictor (finalize s.predictor r b.pc)).1 b with
      | none => simp [happend] at herror
      | some _ =>
          simp only [happend] at herror ⊢
          obtain rfl := Option.some.inj herror
          rw [laws.appendError?_eq] at happend
          have hsame : historyBits (undo s.predictor (finalize s.predictor r b.pc)).1 = bits :=
            (laws.kept_historyBits bits).undo hs.historyBits_eq _
          rw [hsame] at happend
          exact ⟨SpeculativeHistory.appendError?_eq_some (hbits b) happend, rfl⟩

end KeepsHistory

/-! ## What is left of a session -/

/-- What is left of a session `s` when the update of the record at a handle overflows. -/
structure Session.Overflowed (exposes : Branch → Bool) (view : R → V) (s : Session P R) (h : Nat)
    (r : R) (pc : UInt64) (left : Session P R) : Prop where
  /-- The contribution of the record is undone. -/
  predictor_eq : left.predictor = (undo s.predictor r).1
  predictor_eq_self : contribution? P r = none → left.predictor = s.predictor
  record : ∃ r', left.records h = some r' ∧ contribution? P r' = none
  /-- Besides, the branch has been looked up. -/
  eq_withdraw : left = s.withdraw h (finalize s.predictor r pc)
  eq_withdraw_of_definite :
    (∀ (q : P) (pc : UInt64), finalize q r pc = r) → left = s.withdraw h r
  /-- The lookup is not seen before the branch commits, or is exposed when it would by then be
  looked up with another view. -/
  later : ∀ calls : List Call, left.Spared exposes view h (s.withdraw h r) calls →
    (left.run calls).predictor = ((s.withdraw h r).run calls).predictor ∧
      left.errors calls = (s.withdraw h r).errors calls

/-- Calls that are refused leave the predictor as it was, or without the contribution of their
record. -/
structure Session.Recovers (exposes : Branch → Bool) (view : R → V) (s : Session P R) : Prop where
  commit : ∀ (h : Nat) (b : Branch) {error : PredictorError},
    (s.perform (.commit h b)).2 = some error →
      (s.perform (.commit h b)).1.predictor = s.predictor
  squash : ∀ (h : Nat) {error : PredictorError}, (s.perform (.squash h)).2 = some error →
    (s.perform (.squash h)).1.predictor = s.predictor
  /-- A repair or an update is refused in two ways only. -/
  revise : ∀ (h : Nat) (repairs : Bool) (b : Branch) {error : PredictorError},
    (s.perform (.revise h repairs b)).2 = some error → isOutOfOrder (some error) = true ∨
      ∃ total capacity, error = .protocol (.historyOverflow total capacity)
  outOfOrder : ∀ (h : Nat) (repairs : Bool) (b : Branch),
    isOutOfOrder (s.perform (.revise h repairs b)).2 = true →
      (s.perform (.revise h repairs b)).1 = s.counted repairs
  overflow : ∀ (h : Nat) (repairs : Bool) (b : Branch) {r : R} {total capacity : Nat},
    s.records h = some r → (s.perform (.revise h repairs b)).2 =
        some (.protocol (.historyOverflow total capacity)) →
      (s.counted repairs).Overflowed exposes view h r b.pc (s.perform (.revise h repairs b)).1

namespace Traces

variable {I : P → Prop} {Plain : R → Prop} {exposes : Branch → Bool} {trace : R → T}
  {view : R → V} {s : Session P R} {h : Nat} {r : R}

theorem satisfies_counted (traces : Traces I Plain exposes trace view) (hs : s.Satisfies I Plain)
    (repairs : Bool) : (s.counted repairs).Satisfies I Plain := by
  cases repairs with
  | true => exact ⟨traces.kept.kept.countRepair hs.predictor, hs.records⟩
  | false => exact hs

theorem satisfies_withdraw (traces : Traces I Plain exposes trace view) (hs : s.Satisfies I Plain)
    (hr : Plain r) (h : Nat) : (s.withdraw h r).Satisfies I Plain := by
  refine traces.kept.put hs (traces.kept.kept.undo hs.predictor r) h ?_ s.committed
  intro r' hr'
  obtain rfl := Option.some.inj hr'
  exact traces.kept.undone hs.predictor hr

theorem sameBut_withdraw (traces : Traces I Plain exposes trace view) (hr : Fitting s.predictor r)
    (hplain : Plain r) (h : Nat) (pc : UInt64) :
    (s.withdraw h (finalize s.predictor r pc)).SameBut trace h (s.withdraw h r) := by
  have htrace := traces.trace_finalize_of_fitting hr hplain s.predictor pc
  obtain ⟨hpredictor, hrecord⟩ := traces.undo_congr s.predictor htrace
  refine ⟨hpredictor, ?_, ?_⟩
  · intro k hk
    simp only [Session.withdraw, Session.put_of_ne _ hk]
  · simp only [Session.withdraw, Session.put_same, Option.map_some, hrecord]

variable [HistoryKeeper P] {Sound : P → Prop} {bits : Branch → UInt64 × Nat}

theorem overflowed (traces : Traces I Plain exposes trace view) (laws : KeepsHistory Sound)
    (hs : s.Fits Sound bits) (hs' : s.Satisfies I Plain) (hrecord : s.records h = some r)
    (pc : UInt64) :
    s.Overflowed exposes view h r pc (s.withdraw h (finalize s.predictor r pc)) := by
  have hr := hs.fitting hrecord
  have hplain := hs'.records hrecord
  have hsame := traces.sameBut_withdraw hr hplain h pc
  have hfinal := laws.fitting_finalize hs.sound hr pc
  have hplain' := traces.kept.finalized hs'.predictor hplain pc
  refine ⟨hsame.predictor, ?_, ?_, rfl, ?_, ?_⟩
  · intro hnone
    rw [hsame.predictor, Session.withdraw, traces.undo_of_none s.predictor hnone]
  · refine ⟨(undo s.predictor (finalize s.predictor r pc)).2, Session.put_same _ _ _, ?_⟩
    exact Option.map_eq_none_iff.1 (laws.checkpoint?_undone s.predictor _)
  · intro hdefinite
    rw [hdefinite]
  · intro calls hspared
    obtain ⟨hrun, herrors⟩ := traces.run_congr laws (laws.fits_withdraw hs hfinal h)
      (laws.fits_withdraw hs hr h) (traces.satisfies_withdraw hs' hplain' h)
      (traces.satisfies_withdraw hs' hplain h) hsame hspared
    exact ⟨hrun.predictor, herrors⟩

theorem recovers (traces : Traces I Plain exposes trace view) (laws : KeepsHistory Sound)
    (hs : s.Fits Sound bits) (hs' : s.Satisfies I Plain) (hbits : ∀ b, (bits b).2 ≤ 64) :
    s.Recovers exposes view := by
  -- a call on a handle without a record is not refused
  have hrefused : ∀ {h : Nat} {repairs : Bool} {b : Branch} {error : PredictorError},
      (s.perform (.revise h repairs b)).2 = some error → ∃ r, s.records h = some r := by
    intro h repairs b error herror
    cases hrecord : s.records h with
    | none =>
        rw [Session.perform_revise_of_none hrecord] at herror
        cases herror
    | some r => exact ⟨r, rfl⟩
  have hupdate : ∀ {h : Nat} {r : R} {repairs : Bool} {b : Branch} {error : PredictorError},
      s.records h = some r → (s.perform (.revise h repairs b)).2 = some error →
      (isOutOfOrder (some error) = true ∧
          (s.perform (.revise h repairs b)).1 = s.counted repairs) ∨
        (∃ total capacity, error = .protocol (.historyOverflow total capacity)) ∧
          (s.perform (.revise h repairs b)).1 =
            (s.counted repairs).withdraw h (finalize (s.counted repairs).predictor r b.pc) := by
    intro h r repairs b error hrecord herror
    rw [Session.perform_revise hrecord] at herror ⊢
    rw [← Session.records_counted s repairs] at hrecord
    exact laws.update_refused (laws.fits_counted hs repairs) hbits hrecord herror
  constructor
  · intro h b error herror
    rw [KeepsHistory.commit_refused hs herror]
  · intro h error herror
    rw [KeepsHistory.squash_refused hs herror]
  · intro h repairs b error herror
    obtain ⟨r, hrecord⟩ := hrefused herror
    exact (hupdate hrecord herror).imp And.left And.left
  · intro h repairs b horder
    cases herror : (s.perform (.revise h repairs b)).2 with
    | none =>
        rw [herror] at horder
        cases horder
    | some error =>
        obtain ⟨r, hrecord⟩ := hrefused herror
        rw [herror] at horder
        rcases hupdate hrecord herror with ⟨-, hsame⟩ | ⟨⟨total, capacity, rfl⟩, -⟩
        · exact hsame
        · cases horder
  · intro h repairs b r total capacity hrecord herror
    rcases hupdate hrecord herror with ⟨horder, -⟩ | ⟨-, hleft⟩
    · cases horder
    · rw [hleft]
      rw [← Session.records_counted s repairs] at hrecord
      exact traces.overflowed laws (laws.fits_counted hs repairs)
        (traces.satisfies_counted hs' repairs) hrecord b.pc

end Traces

open Session in
/-- Refused calls leave a defined state.  In every session, a refused commit or squash and an update
that is out of order leave the predictor as it was; an update that overflows leaves it without the
earlier contribution of its record.  Later calls go as if that had been all, until the branch
commits.  Only if the refused update was the first to look the branch up, a later one may advance an
iteration count by that lookup, where a new one would by then find another entry. -/
theorem refused_calls_recover (calls : List Call) :
    (∀ {c : TageScl.Config} {p : TageScl}, c.build = .ok p →
        ((start p).run calls).Recovers c.advances fun r => r.loop) ∧
      ∀ {c : Ittage.Config} {p : Ittage}, c.build = .ok p →
        ((start p).run calls).Recovers (fun _ => false) fun _ => () := by
  constructor
  · intro c p hbuild
    have hloops : p.loops?.isSome = c.loops?.isSome := by
      rw [(TageScl.sound_build hbuild).2, Option.isSome_map]
    have traces := TageScl.traces c
    have hfits := ((TageScl.keepsHistory c).run_timeline (TageScl.fits_build hbuild) calls).1
    have hplain := traces.kept.run (traces.kept.start hloops) calls
    exact traces.recovers (TageScl.keepsHistory c) hfits hplain c.historyBits_le
  · intro c p hbuild
    have traces := Ittage.traces
    have hfits := ((Ittage.keepsHistory c).run_timeline (Ittage.fits_build hbuild) calls).1
    have hplain := traces.kept.run (traces.kept.start (p := p) trivial) calls
    exact traces.recovers (Ittage.keepsHistory c) hfits hplain
      (Ittage.Config.historyBits_le (Ittage.build_eq_ok hbuild).1)

/-- Two branches fill the history.  A third one is a return, which inserts no bits into the history
of ITTAGE. -/
def fullHistory : List Call :=
  [.predict 0 4 false, .update 0 ⟨4, .indirectJump, .taken, 64⟩,
    .predict 1 8 false, .update 1 ⟨8, .indirectJump, .taken, 32⟩,
    .predict 2 12 false, .update 2 ⟨12, .procedureReturn, .taken, 16⟩]

open Session in
theorem fullHistory_recovers :
    (let s := (start (TageScl.small none)).run fullHistory
     let left := (s.perform (.update 2 ⟨12, .indirectJump, .taken, 16⟩)).1
     s.errors [.update 2 ⟨12, .indirectJump, .taken, 16⟩] =
         [.protocol (.historyOverflow 3 2)] ∧
       left.predictor = s.predictor ∧
       left.errors [.squash 1, .update 2 ⟨12, .indirectJump, .taken, 16⟩] = []) ∧
    let s := (start Ittage.small).run fullHistory
    let left := (s.perform (.repair 2 ⟨12, .indirectJump, .taken, 16⟩)).1
    s.errors [.repair 2 ⟨12, .indirectJump, .taken, 16⟩] = [.protocol (.historyOverflow 6 4)] ∧
      ∃ r, s.records 2 = some r ∧ r.contribution?.isSome = true ∧
        left.predictor = (Ittage.undo s.predictor r).1 ∧
        left.errors [.squash 1, .update 2 ⟨12, .indirectJump, .taken, 16⟩] = [] ∧
        (left.run [.squash 1, .update 2 ⟨12, .indirectJump, .taken, 16⟩]).predictor =
          ((s.withdraw 2 r).run
            [.squash 1, .update 2 ⟨12, .indirectJump, .taken, 16⟩]).predictor := by
  have hbuildTageScl : (TageScl.smallConfig none).build = .ok (TageScl.small none) := rfl
  have hbuildIttage : Ittage.smallConfig.build = .ok Ittage.small := rfl
  obtain ⟨htageScl, hittage⟩ := refused_calls_recover fullHistory
  constructor
  · intro s left
    have hrecovers := htageScl hbuildTageScl
    change s.Recovers _ _ at hrecovers
    have hinUse : (s.records 2).map (·.contribution?) = some none := by decide +kernel
    have hrefused : (s.perform (.update 2 ⟨12, .indirectJump, .taken, 16⟩)).2 =
        some (.protocol (.historyOverflow 3 2)) := by decide +kernel
    have hlater : left.errors [.squash 1, .update 2 ⟨12, .indirectJump, .taken, 16⟩] = [] := by
      decide +kernel
    clear_value s
    obtain ⟨r, hrecord, hnone⟩ := Option.map_eq_some_iff.1 hinUse
    have hleft := hrecovers.overflow 2 false _ hrecord hrefused
    refine ⟨?_, hleft.predictor_eq_self hnone, hlater⟩
    rw [errors, hrefused]
    rfl
  · intro s left
    have hrecovers := hittage hbuildIttage
    change s.Recovers _ _ at hrecovers
    have hinUse : (s.records 2).map (·.contribution?.isSome) = some true := by decide +kernel
    have hrefused : (s.perform (.repair 2 ⟨12, .indirectJump, .taken, 16⟩)).2 =
        some (.protocol (.historyOverflow 6 4)) := by decide +kernel
    have hlater : left.errors [.squash 1, .update 2 ⟨12, .indirectJump, .taken, 16⟩] = [] := by
      decide +kernel
    clear_value s
    obtain ⟨r, hrecord, hsome⟩ := Option.map_eq_some_iff.1 hinUse
    have hleft := hrecovers.overflow 2 true _ hrecord hrefused
    obtain ⟨hsame, -⟩ := hleft.later [.squash 1, .update 2 ⟨12, .indirectJump, .taken, 16⟩]
      (spared_of_forall _ _ _ (by simp))
    refine ⟨?_, r, hrecord, hsome, hleft.predictor_eq, hlater, hsame⟩
    rw [errors, hrefused]
    rfl

/-- A loop predictor with one entry, and a seed by which the first branch may be given it. -/
def eagerConfig : TageScl.Config :=
  { TageScl.smallConfig (some TageScl.oneLoop) with seed? := some 3 }

def eager : TageScl :=
  { TageScl.small (some TageScl.oneLoop) with config := eagerConfig, random := .ofSeed 3 }

/-- Two branches fill the history, and one at the address of the first has not been looked up. -/
def unseenBranch : List Call :=
  [.predict 0 4 true, .update 0 ⟨4, .directBranch, .taken, 64⟩,
    .predict 1 8 true, .update 1 ⟨8, .directBranch, .taken, 32⟩, .placeholder 2 4 true]

/-- The first branch commits and is given the entry; then the third one is updated. -/
def belatedUpdate : List Call :=
  [.commit 0 ⟨4, .directBranch, .taken, 64⟩, .update 2 ⟨4, .directBranch, .notTaken, 64⟩]

open Session in
/-- An update that overflows can matter although there is nothing to undo: the branch is looked up
before the loop predictor has an entry for it, so that a later update does not count its
iteration. -/
theorem overflow_outdates_lookup :
    eagerConfig.build = .ok eager ∧
      let s := (start eager).run unseenBranch
      let left := (s.perform (.update 2 ⟨4, .directBranch, .notTaken, 64⟩)).1
      (s.records 2).map (·.contribution?) = some none ∧
        s.errors (.update 2 ⟨4, .directBranch, .notTaken, 64⟩ :: belatedUpdate) =
          [.protocol (.historyOverflow 3 2)] ∧
        s.errors belatedUpdate = [] ∧
        (left.run belatedUpdate).predictor ≠ (s.run belatedUpdate).predictor := by
  refine ⟨rfl, ?_⟩
  intro s left
  refine ⟨by decide +kernel, by decide +kernel, by decide +kernel, ?_⟩
  intro hsame
  have hcounts : (left.run belatedUpdate).predictor.loops?.map LoopPredictor.counts =
      (s.run belatedUpdate).predictor.loops?.map LoopPredictor.counts :=
    congrArg (fun p => p.loops?.map LoopPredictor.counts) hsame
  revert hcounts
  decide +kernel

end BranchPrediction
