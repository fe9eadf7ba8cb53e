import BranchPrediction.Proofs.History.Unbounded
import BranchPrediction.Proofs.Pipeline.Retire

/-!
# The history of a session

What a session answers, and what becomes of its history, is decided by very little of its state:
the history itself and, for each handle in use, the checkpoint of the contribution that is applied.
`Timeline` is the machine with that state and nothing else, and `KeepsHistory.perform_timeline`
equates the two step by step.  It holds for every predictor whose steps append to its history and
roll it back (`KeepsHistory`), as long as the records of the session fit the predictor
(`Session.Fits`), which no call changes.

Everything that is only about write positions and numbers of bits is proved on timelines.
-/

namespace BranchPrediction

open SteppedPredictor

/-! ## Histories without views -/

namespace SpeculativeHistory

/-- Insert the history of a branch. -/
def insert (h : SpeculativeHistory) (bits : UInt64 × Nat) (pc : UInt64) :
    Checkpoint × SpeculativeHistory :=
  ((h.append bits.1 bits.2 pc noViews).1, (h.append bits.1 bits.2 pc noViews).2.1)

/-- Undo a contribution, if there is one. -/
def undone (h : SpeculativeHistory) : Option Checkpoint → SpeculativeHistory
  | none => h
  | some c => (h.rollback c noViews).1

/-- The violation, if any, of undoing a contribution, if there is one. -/
def disordered? (h : SpeculativeHistory) (c? : Option Checkpoint) : Option ProtocolViolation :=
  c?.bind h.disorder?

/-- Insert the history of a branch in place of an earlier contribution; answer the contribution
that is then applied, and the error. -/
def revise (h : SpeculativeHistory) (c? : Option Checkpoint) (bits : UInt64 × Nat) (pc : UInt64) :
    SpeculativeHistory × Option Checkpoint × Option PredictorError :=
  match h.disordered? c? with
  | some violation => (h, c?, some (.protocol violation))
  | none =>
    match (h.undone c?).appendError? bits.2 with
    | some error => (h.undone c?, none, some error)
    | none => (((h.undone c?).insert bits pc).2, some ((h.undone c?).insert bits pc).1, none)

/-- Retire the contribution of a branch, which is inserted first if it has not been. -/
def settle (h : SpeculativeHistory) (c? : Option Checkpoint) (bits : UInt64 × Nat) (pc : UInt64) :
    SpeculativeHistory × Option PredictorError :=
  match c? with
  | some c => (h.retire c, none)
  | none =>
    match h.appendError? bits.2 with
    | some error => (h, some error)
    | none => ((h.insert bits pc).2.retire (h.insert bits pc).1, none)

def withdraw (h : SpeculativeHistory) (c? : Option Checkpoint) :
    SpeculativeHistory × Option PredictorError :=
  match h.disordered? c? with
  | some violation => (h, some (.protocol violation))
  | none => (h.undone c?, none)

variable {α : Type} [HistoryView α]

/-- The views have no influence on what an append makes of the history. -/
theorem append_eq_insert (h : SpeculativeHistory) (bits : UInt64 × Nat) (pc : UInt64)
    (views : α) :
    (h.append bits.1 bits.2 pc views).1 = (h.insert bits pc).1 ∧
      (h.append bits.1 bits.2 pc views).2.1 = (h.insert bits pc).2 := by
  obtain ⟨hsaved, hregister⟩ := pushBits_congr bits.1 bits.2 h.register views noViews
  rcases h with ⟨register, path, longest, inFlight⟩
  simp only [insert, append]
  simp only [hsaved, hregister, and_self]

theorem rollback_eq_undone (h : SpeculativeHistory) (c : Checkpoint) (views : α) :
    (h.rollback c views).1 = h.undone (some c) := by
  have hregister := unpushBits_congr c.overwritten c.count h.register views noViews
  rcases h with ⟨register, path, longest, inFlight⟩
  simp only [undone, rollback]
  simp only [hregister]

end SpeculativeHistory

/-! ## Timelines -/

structure Timeline where
  history : SpeculativeHistory
  /-- The checkpoint of each handle in use, if its contribution is applied. -/
  records : Nat → Option (Option Checkpoint)

namespace Timeline

def perform (bits : Branch → UInt64 × Nat) (t : Timeline) :
    Call → Timeline × Option PredictorError
  | .predict h _ _ | .placeholder h _ _ =>
    ({ t with records := Session.put t.records h (some none) }, none)
  | .update h b | .repair h b =>
    match t.records h with
    | none => (t, none)
    | some c? =>
      let (history, c?, error?) := t.history.revise c? (bits b) b.pc
      (⟨history, Session.put t.records h (some c?)⟩, error?)
  | .commit h b =>
    match t.records h with
    | none => (t, none)
    | some c? =>
      let (history, error?) := t.history.settle c? (bits b) b.pc
      (⟨history, Session.put t.records h none⟩, error?)
  | .squash h =>
    match t.records h with
    | none => (t, none)
    | some c? =>
      let (history, error?) := t.history.withdraw c?
      (⟨history, Session.put t.records h none⟩, error?)
  | .reset => ({ t with history := t.history.clear }, none)

def run (bits : Branch → UInt64 × Nat) (t : Timeline) (calls : List Call) : Timeline :=
  calls.foldl (fun t call => (t.perform bits call).1) t

theorem run_cons (bits : Branch → UInt64 × Nat) (t : Timeline) (call : Call)
    (calls : List Call) : t.run bits (call :: calls) = (t.perform bits call).1.run bits calls :=
  rfl

end Timeline

/-! ## Predictors that keep a history -/

/-- A predictor with a history, into which branches insert bits. -/
class HistoryKeeper (P : Type) where
  history : P → SpeculativeHistory
  /-- The bits that a branch inserts, and their number. -/
  historyBits : P → Branch → UInt64 × Nat

open HistoryKeeper

variable {P R Q : Type} [SpeculativePredictor P R Q] [SteppedPredictor P]

/-- The checkpoint of the contribution of a record, if it made one. -/
def checkpoint? (P : Type) {R Q : Type} [SpeculativePredictor P R Q] [SteppedPredictor P] (r : R) :
    Option Checkpoint :=
  (contribution? P r).map (·.checkpoint)

/-- The record fits the predictor, and it has been looked up if it has made a contribution. -/
structure Fitting (p : P) (r : R) : Prop where
  accepted : accepts p r = true
  definite : contribution? P r = none ∨ ∀ (q : P) (pc : UInt64), finalize q r pc = r

/-- The laws of a predictor whose checks and steps are those of its history. -/
structure KeepsHistory [HistoryKeeper P] (Sound : P → Prop) : Prop where
  kept : Kept Sound
  kept_accepts : ∀ r : R, Kept fun p : P => Sound p ∧ accepts p r = true
  kept_historyBits : ∀ bits, Kept fun p : P => historyBits p = bits
  accepts_newRecord : ∀ {p : P}, Sound p → ∀ (predicted : Bool) (pc : UInt64)
    (isConditional : Bool), accepts p (newRecord p predicted pc isConditional) = true
  accepts_finalize : ∀ {p : P} {r : R}, Sound p → accepts p r = true → ∀ pc : UInt64,
    accepts p (finalize p r pc) = true
  accepts_applied : ∀ (p q : P) (r : R) (b : Branch), accepts q (apply p r b).2 = accepts q r
  accepts_undone : ∀ (p q : P) (r : R), accepts q (undo p r).2 = accepts q r
  contribution?_newRecord : ∀ (p : P) (predicted : Bool) (pc : UInt64) (isConditional : Bool),
    contribution? P (newRecord p predicted pc isConditional) = none
  contribution?_finalize : ∀ (p : P) {r : R}, contribution? P r = none → ∀ pc : UInt64,
    contribution? P (finalize p r pc) = none
  finalize_finalize : ∀ (p q : P) (r : R) (pc pc' : UInt64),
    finalize q (finalize p r pc) pc' = finalize p r pc
  finalize_applied : ∀ (p : P) {r : R}, (∀ (q : P) (pc : UInt64), finalize q r pc = r) →
    ∀ (b : Branch) (q : P) (pc : UInt64), finalize q (apply p r b).2 pc = (apply p r b).2
  finalize_undone : ∀ (p : P) {r : R}, (∀ (q : P) (pc : UInt64), finalize q r pc = r) →
    ∀ (q : P) (pc : UInt64), finalize q (undo p r).2 pc = (undo p r).2
  appendError?_eq : ∀ (p : P) (b : Branch),
    appendError? p b = (history p).appendError? (historyBits p b).2
  rollbackError?_eq : ∀ (p : P) (r : R),
    rollbackError? p r = ((history p).disordered? (checkpoint? P r)).map .protocol
  history_apply : ∀ (p : P) (r : R) (b : Branch),
    history (apply p r b).1 = ((history p).insert (historyBits p b) b.pc).2
  checkpoint?_applied : ∀ (p : P) (r : R) (b : Branch),
    checkpoint? P (apply p r b).2 = some ((history p).insert (historyBits p b) b.pc).1
  history_undo : ∀ (p : P) (r : R), history (undo p r).1 = (history p).undone (checkpoint? P r)
  checkpoint?_undone : ∀ (p : P) (r : R), checkpoint? P (undo p r).2 = none
  history_conclude : ∀ (p : P) (r : R) (b : Branch),
    history (conclude p r b) = (history p).retired (contribution? P r)
  history_countRepair : ∀ p : P, history (countRepair p) = history p
  history_reset : ∀ p : P, history (SpeculativePredictor.reset p) = (history p).clear

def Session.timeline [HistoryKeeper P] (s : Session P R) : Timeline :=
  ⟨history s.predictor, fun h => (s.records h).map (checkpoint? P)⟩

/-- All records of a session fit its sound predictor, in which branches insert `bits`. -/
structure Session.Fits [HistoryKeeper P] (Sound : P → Prop) (bits : Branch → UInt64 × Nat)
    (s : Session P R) : Prop where
  sound : Sound s.predictor
  historyBits_eq : historyBits s.predictor = bits
  fitting : ∀ {h : Nat} {r : R}, s.records h = some r → Fitting s.predictor r

namespace KeepsHistory

variable [HistoryKeeper P] {Sound : P → Prop} {bits : Branch → UInt64 × Nat}

/-! ## One record -/

theorem checkpoint?_finalize (laws : KeepsHistory Sound) {p : P} {r : R} (hr : Fitting p r)
    (q : P) (pc : UInt64) : checkpoint? P (finalize q r pc) = checkpoint? P r := by
  rcases hr.definite with hnone | hdefinite
  · rw [checkpoint?, checkpoint?, laws.contribution?_finalize q hnone, hnone]
  · rw [hdefinite]

/-- A record stays fit while its branch is looked up. -/
theorem fitting_finalize (laws : KeepsHistory Sound) {p : P} {r : R} (hp : Sound p)
    (hr : Fitting p r) (pc : UInt64) : Fitting p (finalize p r pc) :=
  ⟨laws.accepts_finalize hp hr.accepted pc, .inr fun q pc' => laws.finalize_finalize p q r pc pc'⟩

theorem fitting_newRecord (laws : KeepsHistory Sound) {p : P} (hp : Sound p) (predicted : Bool)
    (pc : UInt64) (isConditional : Bool) : Fitting p (newRecord p predicted pc isConditional) :=
  ⟨laws.accepts_newRecord hp predicted pc isConditional,
    .inl (laws.contribution?_newRecord p predicted pc isConditional)⟩

theorem fitting_updated (laws : KeepsHistory Sound) {p : P} {r : R} (hp : Sound p)
    (hr : Fitting p r) (b : Branch) : Fitting p (SpeculativePredictor.update p r b).record := by
  have hfinal := laws.fitting_finalize hp hr b.pc
  have hdefinite := fun q pc => laws.finalize_finalize p q r b.pc pc
  rw [update_eq, hr.accepted]
  simp only [Bool.not_true, Bool.false_eq_true, if_false]
  split
  · exact hfinal
  · split
    · refine ⟨?_, .inr (laws.finalize_undone p hdefinite)⟩
      rw [laws.accepts_undone]
      exact hfinal.accepted
    · refine ⟨?_, .inr (laws.finalize_applied _ (laws.finalize_undone p hdefinite) b)⟩
      rw [laws.accepts_applied, laws.accepts_undone]
      exact hfinal.accepted

/-! ## The operations on the history -/

theorem update_history (laws : KeepsHistory Sound) {p : P} {r : R} (hr : Fitting p r)
    (hbits : historyBits p = bits) (b : Branch) :
    (history (SpeculativePredictor.update p r b).predictor,
        checkpoint? P (SpeculativePredictor.update p r b).record,
        (SpeculativePredictor.update p r b).error?) =
      (history p).revise (checkpoint? P r) (bits b) b.pc := by
  have hsame : historyBits (undo p (finalize p r b.pc)).1 = bits :=
    (laws.kept_historyBits bits).undo hbits _
  rw [update_eq, hr.accepted]
  simp only [Bool.not_true, Bool.false_eq_true, if_false, laws.rollbackError?_eq,
    laws.checkpoint?_finalize hr, laws.appendError?_eq, laws.history_undo, hsame,
    SpeculativeHistory.revise]
  cases (history p).disordered? (checkpoint? P r) with
  | some violation => simp only [Option.map_some, laws.checkpoint?_finalize hr]
  | none =>
      simp only [Option.map_none]
      cases ((history p).undone (checkpoint? P r)).appendError? (bits b).2 with
      | some error =>
          simp only [laws.history_undo, laws.checkpoint?_undone, laws.checkpoint?_finalize hr]
      | none =>
          simp only [laws.history_apply, laws.checkpoint?_applied, laws.history_undo, hsame,
            laws.checkpoint?_finalize hr]

theorem commit_history (laws : KeepsHistory Sound) {p : P} {r : R} (hr : Fitting p r)
    (hbits : historyBits p = bits) (b : Branch) :
    (history (SpeculativePredictor.commit p r b).predictor,
        (SpeculativePredictor.commit p r b).error?) =
      (history p).settle (checkpoint? P r) (bits b) b.pc := by
  have hcheckpoint := laws.checkpoint?_finalize hr p b.pc
  rw [commit_eq, hr.accepted]
  simp only [Bool.not_true, Bool.false_eq_true, if_false, laws.appendError?_eq, hbits]
  rw [← hcheckpoint]
  cases hc : contribution? P (finalize p r b.pc) with
  | some c =>
      simp only [Option.isSome_some, if_true, laws.history_conclude, checkpoint?, hc,
        Option.map_some]
      rfl
  | none =>
      simp only [Option.isSome_none, Bool.false_eq_true, if_false, checkpoint?, hc,
        Option.map_none, SpeculativeHistory.settle]
      cases (history p).appendError? (bits b).2 with
      | some error => rfl
      | none =>
          have happlied := laws.checkpoint?_applied p (finalize p r b.pc) b
          obtain ⟨c, hc, hcheckpoint⟩ := Option.map_eq_some_iff.1 happlied
          simp only [laws.history_conclude, laws.history_apply, hc, hbits]
          rw [hbits] at hcheckpoint
          rw [← hcheckpoint]
          rfl

theorem squash_history (laws : KeepsHistory Sound) {p : P} {r : R} (hr : Fitting p r) :
    (history (SpeculativePredictor.squash p r).predictor,
        (SpeculativePredictor.squash p r).error?) =
      (history p).withdraw (checkpoint? P r) := by
  rw [squash_eq, hr.accepted]
  simp only [Bool.not_true, Bool.false_eq_true, if_false, laws.rollbackError?_eq,
    SpeculativeHistory.withdraw]
  cases (history p).disordered? (checkpoint? P r) with
  | some violation => rfl
  | none => simp only [Option.map_none, laws.history_undo]

/-! ## Sessions -/

variable {s : Session P R}

theorem fits_start (_laws : KeepsHistory Sound) {p : P} (hp : Sound p)
    (hbits : historyBits p = bits) : (Session.start p).Fits Sound bits :=
  ⟨hp, hbits, fun hrecord => by cases hrecord⟩

/-- Records that fit still do when the predictor makes steps and one handle is given a record that
fitted it before, or none. -/
theorem fits_put (laws : KeepsHistory Sound) (hs : s.Fits Sound bits) {q : P}
    (hsteps : ∀ {I : P → Prop}, Kept I → I s.predictor → I q) (h : Nat) {r? : Option R}
    (hr : ∀ r, r? = some r → Fitting s.predictor r) (committed : List R) :
    Session.Fits Sound bits ⟨q, Session.put s.records h r?, committed⟩ := by
  have hfitting : ∀ r, Fitting s.predictor r → Fitting q r := by
    intro r hr
    exact ⟨(hsteps (laws.kept_accepts r) ⟨hs.sound, hr.accepted⟩).2, hr.definite⟩
  refine ⟨hsteps laws.kept hs.sound, hsteps (laws.kept_historyBits bits) hs.historyBits_eq, ?_⟩
  intro k r hrecord
  change Session.put s.records h r? k = some r at hrecord
  by_cases hk : k = h
  · rw [hk, Session.put_same] at hrecord
    exact hfitting r (hr r hrecord)
  · rw [Session.put_of_ne _ hk] at hrecord
    exact hfitting r (hs.fitting hrecord)

theorem timeline_put (s : Session P R) (q : P) (h : Nat) (r? : Option R) (committed : List R) :
    Session.timeline ⟨q, Session.put s.records h r?, committed⟩ =
      ⟨history q, Session.put s.timeline.records h (r?.map (checkpoint? P))⟩ := by
  refine congrArg (Timeline.mk (history q)) (funext fun k => ?_)
  by_cases hk : k = h
  · simp only [hk, Session.put_same]
  · simp only [Session.put_of_ne _ hk]
    rfl

theorem records_timeline (s : Session P R) (h : Nat) :
    s.timeline.records h = (s.records h).map (checkpoint? P) :=
  rfl

theorem perform_create (laws : KeepsHistory Sound) (hs : s.Fits Sound bits) (h : Nat)
    (predicted : Bool) (pc : UInt64) (isConditional : Bool) :
    (s.hold h (newRecord s.predictor predicted pc isConditional)).Fits Sound bits ∧
      (s.hold h (newRecord s.predictor predicted pc isConditional)).timeline =
        ⟨history s.predictor, Session.put s.timeline.records h (some none)⟩ := by
  have hnew := laws.fitting_newRecord hs.sound predicted pc isConditional
  constructor
  · refine laws.fits_put hs (fun _ hI => hI) h ?_ s.committed
    intro r hr
    rwa [← Option.some.inj hr]
  · refine (timeline_put s s.predictor h _ s.committed).trans ?_
    rw [Option.map_some, checkpoint?, laws.contribution?_newRecord, Option.map_none]

theorem perform_update (laws : KeepsHistory Sound) (hs : s.Fits Sound bits) (h : Nat)
    (b : Branch) :
    (s.perform (.update h b)).1.Fits Sound bits ∧
      ((s.perform (.update h b)).1.timeline, (s.perform (.update h b)).2) =
        s.timeline.perform bits (.update h b) := by
  simp only [Session.perform, Session.modify, Timeline.perform, records_timeline]
  cases hrecord : s.records h with
  | none => exact ⟨hs, rfl⟩
  | some r =>
      have hr := hs.fitting hrecord
      have hhistory := laws.update_history hr hs.historyBits_eq b
      change _ = s.timeline.history.revise _ _ _ at hhistory
      constructor
      · refine laws.fits_put hs (fun hI hp => hI.update hp r b) h ?_ s.committed
        intro r' hr'
        obtain rfl := Option.some.inj hr'
        exact laws.fitting_updated hs.sound hr b
      · simp only [timeline_put, Option.map_some, ← hhistory]

theorem perform_repair (laws : KeepsHistory Sound) (hs : s.Fits Sound bits) (h : Nat)
    (b : Branch) :
    (s.perform (.repair h b)).1.Fits Sound bits ∧
      ((s.perform (.repair h b)).1.timeline, (s.perform (.repair h b)).2) =
        s.timeline.perform bits (.repair h b) := by
  cases hrecord : s.records h with
  | none =>
      simp only [Session.perform, Session.modify, Timeline.perform, records_timeline, hrecord]
      exact ⟨hs, rfl⟩
  | some r =>
      -- a repair is an update of the predictor that has counted it
      have hcounted : Session.Fits Sound bits { s with predictor := countRepair s.predictor } := by
        have hself := laws.fits_put hs (fun hI hp => hI.countRepair hp) h
          (fun r' hr' => hs.fitting (hrecord.trans hr')) s.committed
        rwa [Session.put_eq_self hrecord] at hself
      have hupdate := laws.perform_update hcounted h b
      have hsame : ({ s with predictor := countRepair s.predictor } : Session P R).perform
          (.update h b) = s.perform (.repair h b) := by
        simp only [Session.perform, Session.modify, hrecord, repair_eq]
      have htimeline : ({ s with predictor := countRepair s.predictor } : Session P R).timeline =
          s.timeline := by
        simp only [Session.timeline, laws.history_countRepair]
      rwa [hsame, htimeline] at hupdate

theorem perform_commit (laws : KeepsHistory Sound) (hs : s.Fits Sound bits) (h : Nat)
    (b : Branch) :
    (s.perform (.commit h b)).1.Fits Sound bits ∧
      ((s.perform (.commit h b)).1.timeline, (s.perform (.commit h b)).2) =
        s.timeline.perform bits (.commit h b) := by
  simp only [Session.perform, Session.release, Timeline.perform, records_timeline]
  cases hrecord : s.records h with
  | none => exact ⟨hs, rfl⟩
  | some r =>
      have hhistory := laws.commit_history (hs.fitting hrecord) hs.historyBits_eq b
      change _ = s.timeline.history.settle _ _ _ at hhistory
      constructor
      · exact laws.fits_put hs (fun hI hp => hI.commit hp r b) h (by simp) _
      · simp only [timeline_put, Option.map_some, Option.map_none, ← hhistory]

theorem perform_squash (laws : KeepsHistory Sound) (hs : s.Fits Sound bits) (h : Nat) :
    (s.perform (.squash h)).1.Fits Sound bits ∧
      ((s.perform (.squash h)).1.timeline, (s.perform (.squash h)).2) =
        s.timeline.perform bits (.squash h) := by
  simp only [Session.perform, Session.release, Timeline.perform, records_timeline]
  cases hrecord : s.records h with
  | none => exact ⟨hs, rfl⟩
  | some r =>
      have hhistory := laws.squash_history (hs.fitting hrecord)
      change _ = s.timeline.history.withdraw _ at hhistory
      constructor
      · exact laws.fits_put hs (fun hI hp => hI.squash hp r) h (by simp) _
      · simp only [timeline_put, Option.map_some, Option.map_none, ← hhistory]

/-- One call keeps the records fit, and does to history and answers what it does on the timeline. -/
theorem perform_timeline (laws : KeepsHistory Sound) (hs : s.Fits Sound bits) (call : Call) :
    (s.perform call).1.Fits Sound bits ∧
      ((s.perform call).1.timeline, (s.perform call).2) = s.timeline.perform bits call := by
  cases call with
  | predict h pc isConditional =>
      obtain ⟨hfits, htimeline⟩ := laws.perform_create hs h true pc isConditional
      exact ⟨hfits, congrArg (·, none) htimeline⟩
  | placeholder h pc isConditional =>
      obtain ⟨hfits, htimeline⟩ := laws.perform_create hs h false pc isConditional
      exact ⟨hfits, congrArg (·, none) htimeline⟩
  | update h b => exact laws.perform_update hs h b
  | repair h b => exact laws.perform_repair hs h b
  | commit h b => exact laws.perform_commit hs h b
  | squash h => exact laws.perform_squash hs h
  | reset =>
      constructor
      · refine ⟨laws.kept.reset hs.sound,
          (laws.kept_historyBits bits).reset hs.historyBits_eq, ?_⟩
        intro h r hrecord
        have hr := hs.fitting hrecord
        exact ⟨((laws.kept_accepts r).reset ⟨hs.sound, hr.accepted⟩).2, hr.definite⟩
      · simp only [Session.perform, Timeline.perform, Session.timeline, laws.history_reset]

theorem run_timeline (laws : KeepsHistory Sound) (hs : s.Fits Sound bits) (calls : List Call) :
    (s.run calls).Fits Sound bits ∧ (s.run calls).timeline = s.timeline.run bits calls := by
  induction calls generalizing s with
  | nil => exact ⟨hs, rfl⟩
  | cons call calls ih =>
      obtain ⟨hfits, hstep⟩ := laws.perform_timeline hs call
      obtain ⟨hend, hrun⟩ := ih hfits
      refine ⟨hend, ?_⟩
      rw [Session.run_cons, hrun, Timeline.run_cons, ← hstep]

end KeepsHistory

end BranchPrediction
