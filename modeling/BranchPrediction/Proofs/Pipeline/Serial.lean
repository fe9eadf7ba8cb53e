import BranchPrediction.Proofs.Pipeline.Capacity
import BranchPrediction.Proofs.Safety.Build

/-!
# One branch at a time

A pipeline may take each branch to its commit before it fetches the next one.  A `Visit` is what it
does with one branch then.  No contribution is ever above the one that is revised, and no bits are
in flight between visits (`Timeline.Quiet`), so all that can fail is that one branch inserts more
bits than there is room for beside the longest history.

For TAGE-SC-L the check of the configuration rules that out, since a branch inserts at most one bit.
ITTAGE checks its widths against the size of a word only: a jump that inserts two bits overflows in
a history that has room for one (`tightConfig_overflows`).
-/

namespace BranchPrediction

open SteppedPredictor HistoryKeeper SpeculativeHistory

/-- What a pipeline does with a branch that it takes to its commit before it fetches another one. -/
structure Visit where
  h : Nat
  /-- The branch is looked up when it is fetched. -/
  predicted : Bool
  pc : UInt64
  isConditional : Bool
  /-- The branch as it is inserted at first. -/
  first : Branch
  /-- The branch as it is inserted anew, with each revision counted as a repair or not. -/
  revisions : List (Bool × Branch)
  resolved : Branch

namespace Visit

def calls (v : Visit) : List Call :=
  .create v.h v.predicted v.pc v.isConditional :: .update v.h v.first ::
    (v.revisions.map fun r => .revise v.h r.1 r.2) ++ [.commit v.h v.resolved]

def inserted (v : Visit) : List Branch :=
  v.first :: v.revisions.map (·.2)

end Visit

/-! ## Errors on the timeline -/

namespace Timeline

def errors (bits : Branch → UInt64 × Nat) (t : Timeline) : List Call → List PredictorError
  | [] => []
  | call :: calls =>
    (t.perform bits call).2.toList ++ errors bits (t.perform bits call).1 calls

variable {bits : Branch → UInt64 × Nat} {t : Timeline}

theorem run_append (first second : List Call) :
    t.run bits (first ++ second) = (t.run bits first).run bits second :=
  List.foldl_append

theorem errors_append (first second : List Call) :
    t.errors bits (first ++ second) =
      t.errors bits first ++ (t.run bits first).errors bits second := by
  induction first generalizing t with
  | nil => rfl
  | cons call first ih => rw [List.cons_append, errors, ih, errors, List.append_assoc, run_cons]

end Timeline

section Sessions

variable {P R Q : Type} [SpeculativePredictor P R Q] [SteppedPredictor P] [HistoryKeeper P]

/-- A session answers the errors of its timeline. -/
theorem KeepsHistory.errors_timeline {Sound : P → Prop} {bits : Branch → UInt64 × Nat}
    (laws : KeepsHistory Sound) {s : Session P R} (hs : s.Fits Sound bits) (calls : List Call) :
    s.errors calls = s.timeline.errors bits calls := by
  induction calls generalizing s with
  | nil => rfl
  | cons call calls ih =>
      obtain ⟨hfits, hstep⟩ := laws.perform_timeline hs call
      rw [Session.errors, Timeline.errors, ih hfits, ← hstep]

end Sessions

/-! ## Quiet histories -/

namespace Timeline

variable {size longest : Nat} {bits : Branch → UInt64 × Nat} {t : Timeline} {h : Nat}
  {c? : Option Checkpoint}

/-- No bits are in flight in a register of `size` bits of which `longest` are read at most. -/
structure Quiet (size longest : Nat) (t : Timeline) : Prop where
  dimensions_eq : t.history.dimensions = (size, longest)
  inFlight_eq : t.history.inFlight = 0

/-- The record of a handle is in use, and its contribution, if it made one, can be undone, which
leaves no bits in flight. -/
structure Lone (size longest : Nat) (t : Timeline) (h : Nat) (c? : Option Checkpoint) : Prop where
  record_eq : t.records h = some c?
  ordered : t.history.disordered? c? = none
  dimensions_eq : (t.history.undone c?).dimensions = (size, longest)
  inFlight_eq : (t.history.undone c?).inFlight = 0

theorem Quiet.create (hquiet : t.Quiet size longest) (bits : Branch → UInt64 × Nat) (h : Nat)
    (predicted : Bool) (pc : UInt64) (isConditional : Bool) :
    (t.perform bits (.create h predicted pc isConditional)).2 = none ∧
      (t.perform bits (.create h predicted pc isConditional)).1.Lone size longest h none := by
  have hlone : Lone size longest { t with records := Session.put t.records h (some none) } h none :=
    ⟨Session.put_same _ _ _, rfl, hquiet.dimensions_eq, hquiet.inFlight_eq⟩
  cases predicted with
  | true => exact ⟨rfl, hlone⟩
  | false => exact ⟨rfl, hlone⟩

/-- Inserting the history of the branch anew fails exactly if its bits alone are too many. -/
theorem Lone.update (hlone : t.Lone size longest h c?) (hlongest : longest < size) {b : Branch}
    (hbits : (bits b).2 ≤ 64) :
    (t.perform bits (.update h b)).2 = overflowAt (size - longest - 1) (bits b).2 ∧
      ((bits b).2 ≤ size - longest - 1 →
        ∃ c, (t.perform bits (.update h b)).1.Lone size longest h (some c)) := by
  have happend := appendError?_eq_overflowAt hlone.dimensions_eq hlongest hbits
  rw [hlone.inFlight_eq, Nat.zero_add] at happend
  simp only [perform, hlone.record_eq, revise, hlone.ordered, happend]
  constructor
  · cases overflowAt (size - longest - 1) (bits b).2 with
    | none => rfl
    | some error => rfl
  · intro hfits
    rw [overflowAt_eq_none_iff.2 hfits]
    have hinserted := inFlight_insert (t.history.undone c?) (bits b) b.pc
    refine ⟨((t.history.undone c?).insert (bits b) b.pc).1, Session.put_same _ _ _, ?_, ?_, ?_⟩
    · exact disorder?_append _ _ _ _ _
    · rw [dimensions_undone, dimensions_insert, hlone.dimensions_eq]
    · rw [inFlight_undone, hinserted, hlone.inFlight_eq, Nat.zero_add]
      exact Nat.sub_self _

/-- Revisions of a branch whose history is inserted answer no error exactly if each of them has room
alone. -/
theorem Lone.revise {c : Checkpoint} (hlone : t.Lone size longest h (some c))
    (hlongest : longest < size) (hbits : ∀ b, (bits b).2 ≤ 64) (revisions : List (Bool × Branch)) :
    (t.errors bits (revisions.map fun r => .revise h r.1 r.2) = [] ↔
        ∀ r ∈ revisions, (bits r.2).2 ≤ size - longest - 1) ∧
      ((∀ r ∈ revisions, (bits r.2).2 ≤ size - longest - 1) →
        ∃ c', (t.run bits (revisions.map fun r => .revise h r.1 r.2)).Lone size longest h
          (some c')) := by
  induction revisions generalizing t c with
  | nil => exact ⟨by simp [errors], fun _ => ⟨c, hlone⟩⟩
  | cons r revisions ih =>
      obtain ⟨hanswer, hnext⟩ := hlone.update hlongest (hbits r.2)
      have hsame : t.perform bits (.revise h r.1 r.2) = t.perform bits (.update h r.2) := by
        cases r.1 with
        | true => rfl
        | false => rfl
      rw [List.map_cons, errors, run_cons, hsame, hanswer, List.append_eq_nil_iff,
        Option.toList_eq_nil_iff, overflowAt_eq_none_iff, List.forall_mem_cons]
      by_cases hfits : (bits r.2).2 ≤ size - longest - 1
      · obtain ⟨c', hlone'⟩ := hnext hfits
        obtain ⟨hiff, hend⟩ := ih hlone'
        exact ⟨and_congr_right fun _ => hiff, fun hall => hend hall.2⟩
      · exact ⟨by simp [hfits], fun hall => absurd hall.1 hfits⟩

theorem Lone.commit {c : Checkpoint} (hlone : t.Lone size longest h (some c)) (b : Branch) :
    (t.perform bits (.commit h b)).2 = none ∧
      (t.perform bits (.commit h b)).1.Quiet size longest := by
  have hdimensions := hlone.dimensions_eq
  have hinFlight := hlone.inFlight_eq
  rw [dimensions_undone] at hdimensions
  simp only [perform, hlone.record_eq, settle]
  exact ⟨trivial, hdimensions, hinFlight⟩

/-- A visit answers no error exactly if every branch that it inserts has room alone; and then it
leaves no bits in flight. -/
theorem Quiet.visit (hquiet : t.Quiet size longest) (hlongest : longest < size)
    (hbits : ∀ b, (bits b).2 ≤ 64) (v : Visit) :
    (t.errors bits v.calls = [] ↔ ∀ b ∈ v.inserted, (bits b).2 ≤ size - longest - 1) ∧
      ((∀ b ∈ v.inserted, (bits b).2 ≤ size - longest - 1) →
        (t.run bits v.calls).Quiet size longest) := by
  obtain ⟨hcreate, hnew⟩ := hquiet.create bits v.h v.predicted v.pc v.isConditional
  obtain ⟨hanswer, hnext⟩ := hnew.update hlongest (hbits v.first)
  rw [Visit.calls, Visit.inserted, List.forall_mem_cons, List.forall_mem_map, List.cons_append,
    List.cons_append, errors, errors, run_cons, run_cons, hcreate, hanswer, Option.toList_none,
    List.nil_append, List.append_eq_nil_iff, Option.toList_eq_nil_iff, overflowAt_eq_none_iff,
    errors_append, run_append, List.append_eq_nil_iff]
  by_cases hfirst : (bits v.first).2 ≤ size - longest - 1
  · obtain ⟨c, hlone⟩ := hnext hfirst
    obtain ⟨hiff, hend⟩ := hlone.revise hlongest hbits v.revisions
    rw [hiff]
    constructor
    · constructor
      · rintro ⟨-, hall, -⟩
        exact ⟨hfirst, hall⟩
      · rintro ⟨-, hall⟩
        obtain ⟨c', hlast⟩ := hend hall
        refine ⟨hfirst, hall, ?_⟩
        rw [errors, (hlast.commit v.resolved).1]
        rfl
    · rintro ⟨-, hall⟩
      obtain ⟨c', hlast⟩ := hend hall
      exact (hlast.commit v.resolved).2
  · exact ⟨by simp [hfirst], fun hall => absurd hall.1 hfirst⟩

/-- Visits one after another answer no error exactly if every branch that is inserted has room
alone. -/
theorem Quiet.errors_eq_nil_iff (hquiet : t.Quiet size longest) (hlongest : longest < size)
    (hbits : ∀ b, (bits b).2 ≤ 64) (visits : List Visit) :
    t.errors bits (visits.flatMap Visit.calls) = [] ↔
      ∀ v ∈ visits, ∀ b ∈ v.inserted, (bits b).2 ≤ size - longest - 1 := by
  induction visits generalizing t with
  | nil => simp [errors]
  | cons v visits ih =>
      obtain ⟨hiff, hend⟩ := hquiet.visit hlongest hbits v
      rw [List.flatMap_cons, errors_append, List.append_eq_nil_iff, hiff, List.forall_mem_cons]
      exact and_congr_right fun hall => ih (hend hall)

end Timeline

/-! ## Both predictors -/

section Sessions

variable {P R Q : Type} [SpeculativePredictor P R Q] [SteppedPredictor P] [HistoryKeeper P]

/-- A new predictor takes branches one at a time without an error exactly if every branch that is
inserted has room beside the longest history. -/
theorem KeepsHistory.errors_serial_eq_nil_iff {Sound : P → Prop} {bits : Branch → UInt64 × Nat}
    (laws : KeepsHistory Sound) {p : P} (hfits : (Session.start p).Fits Sound bits)
    (hbits : ∀ b, (bits b).2 ≤ 64) {size pathBits longest : Nat}
    (hcreate : create size pathBits longest = .ok (history p)) (visits : List Visit) :
    (Session.start p).errors (visits.flatMap Visit.calls) = [] ↔
      ∀ v ∈ visits, ∀ b ∈ v.inserted, (bits b).2 ≤ size - longest - 1 := by
  have hstart := Session.balanced_start hcreate
  have hroom := hstart.room
  rw [laws.errors_timeline hfits]
  exact Timeline.Quiet.errors_eq_nil_iff ⟨hstart.dimensions_eq, hstart.inFlight_eq⟩ (by omega)
    hbits visits

end Sessions

/-- The bits allowed in flight are at least one, and there is room for them. -/
theorem Ladder.Config.maxInFlightBits_bounds {c : Ladder.Config} {longest : Nat}
    (hcheck : c.checkHistoryBuffer longest = .ok ())
    (hword : longest + c.maxInFlightBits < UInt64.size) :
    0 < c.maxInFlightBits ∧ c.maxInFlightBits ≤ c.historyBufferBits - longest - 1 := by
  have hroom := c.lt_of_checkHistoryBuffer hcheck hword
  obtain ⟨hpos, -⟩ := of_guard_eq_ok hcheck (throw_bind_ne_ok _ _ _)
  omega

/-- A branch of TAGE-SC-L inserts its direction, one bit of a hash, or nothing. -/
theorem TageScl.Config.historyBits_le_one (c : TageScl.Config) (b : Branch) :
    (c.historyBits b).2 ≤ 1 := by
  unfold TageScl.Config.historyBits
  split
  · simp
  · split
    · simp
    · simp

def Ittage.Config.widest (c : Ittage.Config) : Nat :=
  max (max c.conditionalBits c.indirectJumpBits) (max c.indirectCallBits c.directCallBits)

theorem Ittage.Config.historyBits_le_widest (c : Ittage.Config) (b : Branch) :
    (c.historyBits b).2 ≤ c.widest := by
  unfold Ittage.Config.historyBits Ittage.Config.widest
  cases b.kind with
  | directBranch => simp only; omega
  | directJump => exact Nat.zero_le _
  | indirectJump => simp only; omega
  | directCall => simp only; omega
  | indirectCall => simp only; omega
  | procedureReturn => exact Nat.zero_le _

theorem Ittage.errors_serial_eq_nil_iff {c : Config} {p : Ittage} (hbuild : c.build = .ok p)
    (visits : List Visit) :
    (Session.start p).errors (visits.flatMap Visit.calls) = [] ↔
      ∀ v ∈ visits, ∀ b ∈ v.inserted,
        (c.historyBits b).2 ≤ c.ladder.historyBufferBits - c.ladder.longestHistory - 1 := by
  obtain ⟨hvalid, -, hcreate⟩ := build_eq_ok hbuild
  exact (keepsHistory c).errors_serial_eq_nil_iff (fits_build hbuild) (c.historyBits_le hvalid)
    hcreate visits

theorem TageScl.errors_serial_eq_nil_iff {c : Config} {p : TageScl} (hbuild : c.build = .ok p)
    (visits : List Visit) :
    (Session.start p).errors (visits.flatMap Visit.calls) = [] ↔
      ∀ v ∈ visits, ∀ b ∈ v.inserted,
        (c.historyBits b).2 ≤ c.ladder.historyBufferBits - c.longestHistory - 1 := by
  obtain ⟨-, -, hcreate⟩ := build_eq_ok hbuild
  exact (keepsHistory c).errors_serial_eq_nil_iff (fits_build hbuild) c.historyBits_le hcreate
    visits

/-- A valid TAGE-SC-L that takes branches one at a time, with any number of revisions, never answers
an error, as long as there is room for it and the longest history and the bits allowed in flight add
up to less than a word. -/
theorem TageScl.errors_serial_eq_nil {c : Config} (hvalid : c.validate = .ok ())
    (hsized : c.hasRoom = true)
    (hword : c.longestHistory + c.ladder.maxInFlightBits < UInt64.size) :
    ∃ p, c.build = .ok p ∧ ∀ visits : List Visit,
      (Session.start p).errors (visits.flatMap Visit.calls) = [] := by
  obtain ⟨p, hbuild, -⟩ := c.exists_build hvalid hsized hword
  obtain ⟨hpos, hroom⟩ := c.ladder.maxInFlightBits_bounds (c.buffer_of_validate hvalid) hword
  refine ⟨p, hbuild, fun visits => ?_⟩
  rw [errors_serial_eq_nil_iff hbuild]
  intro v _ b _
  exact (c.historyBits_le_one b).trans (hpos.trans_le hroom)

/-- An ITTAGE that takes branches one at a time, with any number of revisions, answers an error
exactly if it inserts a branch whose bits alone have no room beside the longest history.  A valid
configuration can be built, as long as there is room for it and the longest history and the bits
allowed in flight add up to less than a word, and there is no such branch if none inserts more bits
than are allowed in flight. -/
theorem serial_errors_iff_too_wide {c : Ittage.Config} (hvalid : c.validate = .ok ()) :
    (∀ {p : Ittage}, c.build = .ok p → ∀ visits : List Visit,
        ((Session.start p).errors (visits.flatMap Visit.calls) = [] ↔
          ∀ v ∈ visits, ∀ b ∈ v.inserted,
            (c.historyBits b).2 ≤ c.ladder.historyBufferBits - c.ladder.longestHistory - 1)) ∧
      (c.ladder.hasRoom = true →
        c.ladder.longestHistory + c.ladder.maxInFlightBits < UInt64.size →
        ∃ p, c.build = .ok p ∧
          (c.widest ≤ c.ladder.maxInFlightBits → ∀ visits : List Visit,
            (Session.start p).errors (visits.flatMap Visit.calls) = [])) := by
  constructor
  · intro p hbuild visits
    exact Ittage.errors_serial_eq_nil_iff hbuild visits
  · intro hsized hword
    obtain ⟨p, hbuild, -⟩ := Ittage.Config.exists_build hvalid hsized hword
    obtain ⟨-, hbuffer⟩ := c.ladder.path_and_buffer_of_validate (c.ladder_of_validate hvalid)
    obtain ⟨-, hroom⟩ := c.ladder.maxInFlightBits_bounds hbuffer hword
    refine ⟨p, hbuild, fun hnarrow visits => ?_⟩
    rw [Ittage.errors_serial_eq_nil_iff hbuild]
    intro v _ b _
    exact (c.historyBits_le_widest b).trans (hnarrow.trans hroom)

/-- A jump that is inserted as mispredicted, repaired twice and committed. -/
def repairedJump : Visit where
  h := 0
  predicted := true
  pc := 4
  isConditional := false
  first := ⟨4, .indirectJump, .taken, 32⟩
  revisions := [(true, ⟨4, .indirectCall, .taken, 64⟩), (true, ⟨4, .indirectJump, .taken, 64⟩)]
  resolved := ⟨4, .indirectJump, .taken, 64⟩

/-- A configuration of ITTAGE with room for one bit in flight, and jumps that insert two. -/
def Ittage.tightConfig : Config where
  ladder :=
    { tables := [⟨2, 1, 2⟩]
      pathBits := 3
      historyBufferBits := 4
      maxInFlightBits := 1 }
  seed? := some 1

def Ittage.tight : Ittage where
  config := tightConfig
  ladder := .blank tightConfig.ladder
  history := ⟨.zeros 4 (by decide), .empty 3, 2, 0⟩
  random := .ofSeed 1

theorem repairedJump_serial_errors :
    ((Session.start Ittage.small).errors ([repairedJump, repairedJump].flatMap Visit.calls) = [] ∧
      (Session.start Ittage.tight).errors ([repairedJump].flatMap Visit.calls) ≠ []) ∧
    ∃ p, Ittage.smallConfig.build = .ok p ∧
      (Session.start p).errors ([repairedJump, repairedJump].flatMap Visit.calls) = [] := by
  obtain ⟨hsmall, hruns⟩ := serial_errors_iff_too_wide (c := Ittage.smallConfig) rfl
  obtain ⟨htight, -⟩ := serial_errors_iff_too_wide (c := Ittage.tightConfig) rfl
  obtain ⟨p, hp, hnarrow⟩ := hruns (by decide) (by decide)
  refine ⟨⟨?_, ?_⟩, p, hp, hnarrow (by decide) _⟩
  · exact (hsmall (p := Ittage.small) rfl _).2 (by decide)
  · intro hnone
    have hfits := (htight (p := Ittage.tight) rfl _).1 hnone
    revert hfits
    decide

/-- An accepted configuration of ITTAGE under which one jump does not run: its update overflows the
history, and so do the revisions and the commit. -/
theorem tightConfig_overflows :
    Ittage.tightConfig.validate = .ok () ∧ Ittage.tightConfig.build = .ok Ittage.tight ∧
      (Session.start Ittage.tight).errors repairedJump.calls =
        List.replicate 4 (.protocol (.historyOverflow 2 1)) :=
  ⟨rfl, rfl, by decide +kernel⟩

end BranchPrediction
