import BranchPrediction.Proofs.Pipeline.Steps

/-!
# Taking the youngest branch back

`Rewinds` collects what a predictor must satisfy for speculation to leave no trace: a record that
was just made is *anchored* to the state of the predictor, applying an anchored record and undoing
it returns to that state, and what is left of the record can be applied again as if nothing had
happened.

From this follow the equations of a session that its runs are built from.  `push` is the session
after a successful first update and `hold` the session that has a record without a contribution; a
revision changes the branch of the last push, and a squash takes the push back.
-/

namespace BranchPrediction

open SteppedPredictor

variable {P R Q : Type} [SpeculativePredictor P R Q]

/-- The record of a new branch, with a lookup or without one. -/
def newRecord (p : P) (predicted : Bool) (pc : UInt64) (isConditional : Bool) : R :=
  if predicted then (SpeculativePredictor.predict p pc isConditional).2
  else SpeculativePredictor.placeholder p pc isConditional

namespace Session

/-- The session with a record that has made no contribution. -/
def hold (s : Session P R) (h : Nat) (r : R) : Session P R :=
  { s with records := put s.records h (some r) }

@[simp]
theorem records_hold_self (s : Session P R) (h : Nat) (r : R) :
    (s.hold h r).records h = some r :=
  put_same _ _ _

theorem records_hold_of_ne (s : Session P R) {h k : Nat} (hne : k ≠ h) (r : R) :
    (s.hold h r).records k = s.records k :=
  put_of_ne _ hne _

theorem perform_create (s : Session P R) (h : Nat) (predicted : Bool) (pc : UInt64)
    (isConditional : Bool) :
    s.perform (.create h predicted pc isConditional) =
      (s.hold h (newRecord s.predictor predicted pc isConditional), none) := by
  cases predicted with
  | true => rfl
  | false => rfl

theorem perform_update_other (s : Session P R) {h k : Nat} (hne : k ≠ h) (r : R) (b : Branch) :
    (s.hold h r).perform (.update k b) =
      ((s.perform (.update k b)).1.hold h r, (s.perform (.update k b)).2) := by
  simp only [perform, modify, hold, put_of_ne _ hne]
  cases s.records k with
  | none => rfl
  | some r' => simp only [put_comm _ hne.symm]

end Session

variable [SteppedPredictor P]

/-- The laws of a predictor that can take back its youngest contribution, while it is `Sound`, for
records that are `Anchored` to its state. -/
structure Rewinds (Sound : P → Prop) (Anchored : P → R → Prop) : Prop where
  kept : Kept Sound
  accepts_newRecord : ∀ {p : P}, Sound p → ∀ (predicted : Bool) (pc : UInt64)
    (isConditional : Bool), accepts p (newRecord p predicted pc isConditional) = true
  anchored_newRecord : ∀ {p : P}, Sound p → ∀ (predicted : Bool) (pc : UInt64)
    (isConditional : Bool) (pc' : UInt64),
    Anchored p (finalize p (newRecord p predicted pc isConditional) pc')
  rollbackError?_of_none : ∀ (p : P) {r : R}, contribution? P r = none → rollbackError? p r = none
  undo_of_none : ∀ (p : P) {r : R}, contribution? P r = none → undo p r = (p, r)
  accepts_of_anchored : ∀ {p : P} {r : R}, Anchored p r → accepts p r = true
  contribution?_of_anchored : ∀ {p : P} {r : R}, Anchored p r → contribution? P r = none
  finalize_of_anchored : ∀ {p : P} {r : R}, Anchored p r → ∀ (q : P) (pc : UInt64),
    finalize q r pc = r
  accepts_apply : ∀ (p : P) (r : R) (b : Branch) (r' : R),
    accepts (apply p r b).1 r' = accepts p r'
  accepts_applied : ∀ (p q : P) (r : R) (b : Branch), accepts q (apply p r b).2 = accepts q r
  finalize_applied : ∀ {p : P} {r : R}, Anchored p r → ∀ (b : Branch) (q : P) (pc : UInt64),
    finalize q (apply p r b).2 pc = (apply p r b).2
  isSome_contribution?_applied : ∀ (p : P) (r : R) (b : Branch),
    (contribution? P (apply p r b).2).isSome = true
  rollbackError?_applied : ∀ (p : P) (r : R) (b : Branch),
    rollbackError? (apply p r b).1 (apply p r b).2 = none
  undo_apply : ∀ {p : P} {r : R} {b : Branch}, Sound p → Anchored p r →
    appendError? p b = none → (undo (apply p r b).1 (apply p r b).2).1 = p
  anchored_undone : ∀ {p : P} {r : R}, Anchored p r → ∀ b : Branch,
    Anchored p (undo (apply p r b).1 (apply p r b).2).2
  apply_undone : ∀ {p : P} {r : R}, Anchored p r → ∀ b b' : Branch,
    apply p (undo (apply p r b).1 (apply p r b).2).2 b' = apply p r b'

/-- The result of an attempt to insert the history of a branch; `left` is what remains of the record
if there is no room. -/
def attempted (p : P) (r left : R) (b : Branch) : UpdateResult P R :=
  match appendError? p b with
  | none => ⟨(apply p r b).1, (apply p r b).2, none⟩
  | some error => ⟨p, left, some error⟩

namespace Session

/-- The session with a record that has inserted the history of a branch. -/
def push (s : Session P R) (h : Nat) (r : R) (b : Branch) : Session P R where
  predictor := (apply s.predictor r b).1
  records := put s.records h (some (apply s.predictor r b).2)
  committed := s.committed

@[simp]
theorem records_push_self (s : Session P R) (h : Nat) (r : R) (b : Branch) :
    (s.push h r b).records h = some (apply s.predictor r b).2 :=
  put_same _ _ _

theorem records_push_of_ne (s : Session P R) {h k : Nat} (hne : k ≠ h) (r : R) (b : Branch) :
    (s.push h r b).records k = s.records k :=
  put_of_ne _ hne _

/-- The session after an attempt to insert the history of a branch; `left` is what remains of the
record if there is no room. -/
def attempt (s : Session P R) (h : Nat) (r left : R) (b : Branch) : Session P R :=
  match appendError? s.predictor b with
  | none => s.push h r b
  | some _ => s.hold h left

theorem attempt_of_room {s : Session P R} {b : Branch} (hroom : appendError? s.predictor b = none)
    (h : Nat) (r left : R) : s.attempt h r left b = s.push h r b := by
  rw [attempt, hroom]

theorem attempt_of_error {s : Session P R} {b : Branch} {error : PredictorError}
    (herror : appendError? s.predictor b = some error) (h : Nat) (r left : R) :
    s.attempt h r left b = s.hold h left := by
  rw [attempt, herror]

theorem records_attempt_of_ne (s : Session P R) {h k : Nat} (hne : k ≠ h) (r left : R)
    (b : Branch) : (s.attempt h r left b).records k = s.records k := by
  cases hroom : appendError? s.predictor b with
  | none => rw [attempt_of_room hroom, records_push_of_ne s hne]
  | some error => rw [attempt_of_error hroom, records_hold_of_ne s hne]

end Session

namespace Rewinds

variable {Sound : P → Prop} {Anchored : P → R → Prop}

theorem strengthen (laws : Rewinds Sound Anchored) {I : P → Prop} (hkept : Kept I) :
    Rewinds (fun p => Sound p ∧ I p) Anchored :=
  { laws with
    kept := laws.kept.and hkept
    accepts_newRecord := fun h => laws.accepts_newRecord h.1
    anchored_newRecord := fun h => laws.anchored_newRecord h.1
    undo_apply := fun h => laws.undo_apply h.1 }

theorem sound_run (laws : Rewinds Sound Anchored) {s : Session P R} (hs : Sound s.predictor)
    (calls : List Call) : Sound (s.run calls).predictor :=
  laws.kept.reachable hs (Session.reachable_run .origin calls)

/-- A record that was just applied fits. -/
theorem accepts_push (laws : Rewinds Sound Anchored) {p : P} {r : R} (hanchored : Anchored p r)
    (b : Branch) : accepts (apply p r b).1 (apply p r b).2 = true := by
  rw [laws.accepts_apply, laws.accepts_applied]
  exact laws.accepts_of_anchored hanchored

/-! ### One record -/

theorem update_of_none (laws : Rewinds Sound Anchored) {p : P} {r : R} {b : Branch}
    (haccepts : accepts p r = true) (hnone : contribution? P (finalize p r b.pc) = none) :
    SpeculativePredictor.update p r b =
      attempted p (finalize p r b.pc) (finalize p r b.pc) b := by
  have hupdate := update_eq p r b
  simp only [haccepts, Bool.not_true, Bool.false_eq_true, if_false,
    laws.rollbackError?_of_none p hnone, laws.undo_of_none p hnone] at hupdate
  refine hupdate.trans ?_
  unfold attempted
  cases appendError? p b with
  | none => rfl
  | some error => rfl

/-- The update of a record that was just applied changes its branch, or takes it back if there is no
room. -/
theorem update_applied (laws : Rewinds Sound Anchored) {p : P} {r : R} {b : Branch}
    (hp : Sound p) (hanchored : Anchored p r) (hroom : appendError? p b = none) (b' : Branch) :
    SpeculativePredictor.update (apply p r b).1 (apply p r b).2 b' =
      attempted p r (undo (apply p r b).1 (apply p r b).2).2 b' := by
  have hupdate := update_eq (apply p r b).1 (apply p r b).2 b'
  simp only [laws.accepts_push hanchored, Bool.not_true, Bool.false_eq_true, if_false,
    laws.finalize_applied hanchored, laws.rollbackError?_applied,
    laws.undo_apply hp hanchored hroom, laws.apply_undone hanchored] at hupdate
  refine hupdate.trans ?_
  unfold attempted
  cases appendError? p b' with
  | none => rfl
  | some error => rfl

theorem squash_applied (laws : Rewinds Sound Anchored) {p : P} {r : R} {b : Branch}
    (hp : Sound p) (hanchored : Anchored p r) (hroom : appendError? p b = none) :
    SpeculativePredictor.squash (apply p r b).1 (apply p r b).2 = ⟨p, none⟩ := by
  simp only [squash_eq, laws.accepts_push hanchored, Bool.not_true, Bool.false_eq_true, if_false,
    laws.rollbackError?_applied, laws.undo_apply hp hanchored hroom]

/-! ### Sessions -/

theorem perform_update_of_none (laws : Rewinds Sound Anchored) {s : Session P R} {h : Nat} {r : R}
    {b : Branch} (hrecord : s.records h = some r) (haccepts : accepts s.predictor r = true)
    (hnone : contribution? P (finalize s.predictor r b.pc) = none) :
    s.perform (.update h b) =
      (s.attempt h (finalize s.predictor r b.pc) (finalize s.predictor r b.pc) b,
        appendError? s.predictor b) := by
  simp only [Session.attempt, Session.perform, Session.modify, hrecord,
    laws.update_of_none haccepts hnone, attempted]
  cases appendError? s.predictor b with
  | none => rfl
  | some error => rfl

theorem perform_update_new (laws : Rewinds Sound Anchored) {s : Session P R}
    (hs : Sound s.predictor) (h : Nat) (predicted : Bool) (pc : UInt64) (isConditional : Bool)
    (b : Branch) :
    ∃ a, a = finalize s.predictor (newRecord s.predictor predicted pc isConditional) b.pc ∧
      Anchored s.predictor a ∧
      (s.hold h (newRecord s.predictor predicted pc isConditional)).perform (.update h b) =
        (s.attempt h a a b, appendError? s.predictor b) := by
  have hanchored := laws.anchored_newRecord hs predicted pc isConditional b.pc
  refine ⟨_, rfl, hanchored, ?_⟩
  have hstep := laws.perform_update_of_none
    (s := s.hold h (newRecord s.predictor predicted pc isConditional)) (b := b)
    (Session.records_hold_self _ _ _) (laws.accepts_newRecord hs predicted pc isConditional)
    (laws.contribution?_of_anchored hanchored)
  simpa only [Session.attempt, Session.hold, Session.push, Session.put_put] using hstep

/-- A fetch that succeeds stacks one more branch. -/
theorem run_fetch (laws : Rewinds Sound Anchored) {s : Session P R} {h : Nat}
    {predicted : Bool} {pc : UInt64} {isConditional : Bool} {b : Branch}
    (hs : Sound s.predictor)
    (herrors : s.errors (Event.fetch h predicted pc isConditional b).calls = []) :
    ∃ a, a = finalize s.predictor (newRecord s.predictor predicted pc isConditional) b.pc ∧
      Anchored s.predictor a ∧ appendError? s.predictor b = none ∧
      s.run (Event.fetch h predicted pc isConditional b).calls = s.push h a b := by
  obtain ⟨a, ha, hanchored, hupdate⟩ :=
    laws.perform_update_new hs h predicted pc isConditional b
  simp only [Event.calls, Session.errors, Session.run_cons, Session.run_nil,
    Session.perform_create, hupdate, Option.toList_none, List.nil_append,
    List.append_nil] at herrors ⊢
  have hroom : appendError? s.predictor b = none := by
    cases hroom : appendError? s.predictor b with
    | none => rfl
    | some error => simp [hroom] at herrors
  exact ⟨a, ha, hanchored, hroom, Session.attempt_of_room hroom h a a⟩

/-- The update of a record that is still anchored, after an update that failed. -/
theorem perform_update_hold (laws : Rewinds Sound Anchored) {s : Session P R} {r : R} (h : Nat)
    (hanchored : Anchored s.predictor r) (b : Branch) :
    (s.hold h r).perform (.update h b) = (s.attempt h r r b, appendError? s.predictor b) := by
  have hfinal : finalize s.predictor r b.pc = r := laws.finalize_of_anchored hanchored _ _
  have hstep := laws.perform_update_of_none (s := s.hold h r) (b := b)
    (Session.records_hold_self _ _ _) (laws.accepts_of_anchored hanchored)
    (by
      change contribution? P (finalize s.predictor r b.pc) = none
      rw [hfinal]
      exact laws.contribution?_of_anchored hanchored)
  simpa only [Session.attempt, Session.hold, Session.push, Session.put_put, hfinal] using hstep

/-- A revision of the last push changes its branch, or takes it back if there is no room. -/
theorem perform_update_push (laws : Rewinds Sound Anchored) {s : Session P R} {r : R} {b : Branch}
    (h : Nat) (hs : Sound s.predictor) (hanchored : Anchored s.predictor r)
    (hroom : appendError? s.predictor b = none) (b' : Branch) :
    (s.push h r b).perform (.update h b') =
      (s.attempt h r (undo (apply s.predictor r b).1 (apply s.predictor r b).2).2 b',
        appendError? s.predictor b') := by
  have hpredictor : (s.push h r b).predictor = (apply s.predictor r b).1 := rfl
  simp only [Session.attempt, Session.perform, Session.modify, Session.records_push_self,
    hpredictor, laws.update_applied hs hanchored hroom, attempted]
  cases appendError? s.predictor b' with
  | none => simp only [Session.push, Session.put_put]
  | some error => simp only [Session.push, Session.hold, Session.put_put]

/-- Whether or not a first update had room, the second one follows it as if it came first. -/
theorem perform_update_attempt (laws : Rewinds Sound Anchored) {s : Session P R} {r : R}
    {b : Branch} (h : Nat) (hs : Sound s.predictor) (hanchored : Anchored s.predictor r)
    (wrong : Branch) (hroom : appendError? s.predictor b = none) :
    (s.attempt h r r wrong).perform (.update h b) = (s.push h r b, none) := by
  cases hwrong : appendError? s.predictor wrong with
  | none =>
      rw [Session.attempt_of_room hwrong, laws.perform_update_push h hs hanchored hwrong,
        Session.attempt_of_room hroom, hroom]
  | some error =>
      rw [Session.attempt_of_error hwrong, laws.perform_update_hold h hanchored,
        Session.attempt_of_room hroom, hroom]

theorem perform_squash_push (laws : Rewinds Sound Anchored) {s : Session P R} {r : R} {b : Branch}
    {h : Nat} (hfresh : s.records h = none) (hs : Sound s.predictor)
    (hanchored : Anchored s.predictor r) (hroom : appendError? s.predictor b = none) :
    (s.push h r b).perform (.squash h) = (s, none) := by
  have hpredictor : (s.push h r b).predictor = (apply s.predictor r b).1 := rfl
  simp only [Session.perform, Session.release, Session.records_push_self, hpredictor,
    laws.squash_applied hs hanchored hroom]
  simp [Session.push, Session.put_eq_self hfresh]

theorem perform_squash_hold (laws : Rewinds Sound Anchored) {s : Session P R} {r : R} {h : Nat}
    (hfresh : s.records h = none) (haccepts : accepts s.predictor r = true)
    (hnone : contribution? P r = none) :
    (s.hold h r).perform (.squash h) = (s, none) := by
  have hpredictor : (s.hold h r).predictor = s.predictor := rfl
  simp only [Session.perform, Session.release, Session.records_hold_self, hpredictor, squash_eq,
    haccepts, Bool.not_true, Bool.false_eq_true, if_false,
    laws.rollbackError?_of_none s.predictor hnone, laws.undo_of_none s.predictor hnone]
  simp [Session.hold, Session.put_eq_self hfresh]

end Rewinds

end BranchPrediction
