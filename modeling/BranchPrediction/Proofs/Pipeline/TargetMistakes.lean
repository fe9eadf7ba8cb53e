import BranchPrediction.Proofs.Pipeline.Confidence
import BranchPrediction.Proofs.Pipeline.Firm
import BranchPrediction.Proofs.Pipeline.TargetAllowance
import BranchPrediction.Proofs.Pipeline.Visits
import BranchPrediction.Proofs.Safety.Ittage

/-!
# How often ITTAGE can be wrong about a constant target

A `Round` is a visit of a pipeline to an indirect jump or call that inserts no history.  Such a
visit is never refused, and it changes nothing that the slots of the branch depend on, so that the
next round finds what this one has learned (`Ittage.play_spec`).  Hence the rounds of a session that
are mistakes stay within the allowance of the state that they start from, and there is a bound for
all states.

Whether an allocation skips a table is drawn at random.  A round may replace the random state, so
that the bound is one for all sequences of draws.
-/

namespace BranchPrediction

open SteppedPredictor HistoryKeeper SpeculativeHistory Ladder

namespace Ittage

/-! ## States in use -/

/-- What a state that calls lead to satisfies, as far as it does not depend on the draws. -/
structure Usable (c : Config) (built p : Ittage) : Prop where
  sound : Sound c p
  descends : Descends built p
  hasRoom : p.history.HasRoom

section Usable

variable {c : Config} {built p : Ittage} {s : Session Ittage Record}

theorem usable_of_reachable (hbuild : c.build = .ok built) (h : Reachable built p) :
    Usable c built p := by
  obtain ⟨-, -, hcreate⟩ := build_eq_ok hbuild
  obtain ⟨hlongest, hsize, hhistory⟩ := create_eq_ok hcreate
  have hroom : (history built).HasRoom := by
    rw [show history built = _ from hhistory, HasRoom, HistoryRegister.size_zeros, Nat.zero_add]
    exact hlongest
  exact ⟨(kept_sound c).reachable (sound_build hbuild) h,
    (kept_descends built).reachable ⟨⟨rfl, rfl⟩, rfl⟩ h, (keepsHistory c).hasRoom hroom h⟩

theorem Usable.run (h : Usable c built s.predictor) (calls : List Call) :
    Usable c built (s.run calls).predictor := by
  have hreachable := Session.reachable_run (s := s) .origin calls
  exact ⟨(kept_sound c).reachable h.sound hreachable,
    (kept_descends built).reachable h.descends hreachable,
    (keepsHistory c).hasRoom h.hasRoom hreachable⟩

end Usable

/-! ## Rounds -/

/-- One visit of a branch among others; the draws are made from another random state, if one is
given. -/
structure Round where
  visit : Visit
  random? : Option Xorshift

namespace Round

/-- The branch is predicted, and is one of a kind at an address that goes to `target`. -/
structure Repeats (pc : UInt64) (kind : BranchKind) (target : UInt64) (round : Round) : Prop where
  predicted : round.visit.predicted = true
  pc_eq : round.visit.pc = pc
  inserted : ∀ b ∈ round.visit.inserted, b.kind = kind
  resolved : round.visit.resolved.kind = kind
  target_eq : round.visit.resolved.target = target

variable (round : Round) (s : Session Ittage Record)

def enter : Session Ittage Record :=
  { s with
    predictor := { s.predictor with random := round.random?.getD s.predictor.random } }

def play : Session Ittage Record :=
  (round.enter s).run round.visit.calls

def prediction : Option UInt64 :=
  (predict (round.enter s).predictor round.visit.pc round.visit.isConditional).1

end Round

def roundErrors (s : Session Ittage Record) : List Round → List PredictorError
  | [] => []
  | round :: rest => (round.enter s).errors round.visit.calls ++ roundErrors (round.play s) rest

def mistakes (target : UInt64) (s : Session Ittage Record) : List Round → Nat
  | [] => 0
  | round :: rest =>
    (if round.prediction s = some target then 0 else 1) + mistakes target (round.play s) rest

section Rounds

variable {c : Config} {built : Ittage} {s : Session Ittage Record} {pc : UInt64}
  {kind : BranchKind} {target : UInt64} {round : Round}

/-- A branch that inserts no bits only notes that it did, and makes its draw. -/
theorem apply_of_count_eq_zero {p : Ittage} (r : Record) {b : Branch}
    (hcount : (p.config.historyBits b).2 = 0) :
    (apply p r b).1.ladder = p.ladder ∧ (apply p r b).1.history = p.history := by
  have hsame : (p.appended b).2 = (p.history, p.ladder) :=
    append_of_count_eq_zero p.history _ hcount b.pc p.ladder
  rw [apply_eq, hsame]
  exact ⟨rfl, rfl⟩

theorem Usable.enter (h : Usable c built s.predictor) (round : Round) :
    Usable c built (round.enter s).predictor :=
  ⟨⟨h.sound.inStep, h.sound.foldShapes_eq⟩,
    ⟨⟨h.descends.1.config, h.descends.1.ladder⟩, h.descends.2⟩, h.hasRoom⟩

/-- A round is never refused.  It teaches the ladder a lesson about the lookup of its branch, and
leaves the path as it was. -/
theorem play_spec (hbuild : c.build = .ok built) (hkind : kind.usesTargetTables = true)
    (hstill : ∀ b : Branch, b.kind = kind → (c.historyBits b).2 = 0)
    (hs : Usable c built s.predictor) (hround : round.Repeats pc kind target) :
    (round.enter s).errors round.visit.calls = [] ∧
      ∃ r : Record, r.lookup = s.predictor.find pc round.visit.isConditional ∧
        (round.play s).predictor.ladder = learn r target s.predictor.ladder ∧
        (round.play s).predictor.history.path = s.predictor.history.path := by
  obtain ⟨hpredicted, rfl, hinserted, hresolved, rfl⟩ := hround
  set v := round.visit
  have hcount : ∀ b ∈ v.inserted,
      ((round.enter s).predictor.config.historyBits b).2 = 0 := by
    intro b hb
    change (s.predictor.config.historyBits b).2 = 0
    rw [(hs.descends.regular hbuild).config_eq]
    exact hstill b (hinserted b hb)
  have hroom : ∀ b ∈ v.inserted, (round.enter s).predictor.appendError? b = none := by
    intro b hb
    rw [appendError?, hcount b hb]
    exact hs.hasRoom.appendError?_zero
  have herrors := (run_visit (hs.enter round).sound v).1.2 hroom
  obtain ⟨last, hlast, hrun⟩ := predictor_run_visit (hs.enter round).sound hpredicted herrors
  obtain ⟨hladder, hhistory⟩ := apply_of_count_eq_zero
    ((round.enter s).predictor.lookup v.pc v.isConditional) (hcount last hlast)
  have hpath : ∀ (h : SpeculativeHistory) (contribution? : Option Contribution),
      (h.retired contribution?).path = h.path := by
    intro h contribution?
    cases contribution? with
    | none => rfl
    | some c => rfl
  refine ⟨herrors, (apply (round.enter s).predictor
    ((round.enter s).predictor.lookup v.pc v.isConditional) last).2, lookup_apply _ _ last, ?_, ?_⟩
  · rw [Round.play, hrun, conclude_eq, concluded, hresolved, if_pos hkind]
    exact congrArg (learn _ v.resolved.target) hladder
  · rw [Round.play, hrun, conclude_eq]
    exact (hpath _ _).trans (congrArg SpeculativeHistory.path hhistory)

/-- The mistakes that a session can still make about a branch. -/
def allowanceAt (pc : UInt64) (target : UInt64) (s : Session Ittage Record) : Nat :=
  allowance target s.predictor.ladder (s.predictor.ladder.slots pc s.predictor.history.path)

/-- No round adds to the allowance, and a mistake uses up a part of it. -/
theorem allowanceAt_play (hbuild : c.build = .ok built) (hkind : kind.usesTargetTables = true)
    (hstill : ∀ b : Branch, b.kind = kind → (c.historyBits b).2 = 0)
    (hs : Usable c built s.predictor) (hround : round.Repeats pc kind target) :
    (if round.prediction s = some target then 0 else 1) +
        allowanceAt pc target (round.play s) ≤ allowanceAt pc target s := by
  obtain ⟨-, r, hlookup, hladder, hpath⟩ := play_spec hbuild hkind hstill hs hround
  obtain ⟨hvalid, -⟩ := build_eq_ok hbuild
  have hstep := allowance_learn (hs.descends.regular hbuild).ladder (c.ladder_of_validate hvalid)
    hlookup target
  have hprediction : round.prediction s = r.lookup.target? := by
    rw [hlookup, ← hround.pc_eq]
    rfl
  obtain ⟨hslots, -⟩ := slots_learn (r := r) target s.predictor.ladder pc s.predictor.history.path
  rw [(lookup_selection hlookup).1] at hstep
  rw [hprediction, allowanceAt, allowanceAt, hladder, hpath, hslots, ← hround.pc_eq]
  rw [← hround.pc_eq] at hstep
  exact hstep

/-- However many rounds there are, none is refused, and their mistakes stay within the allowance. -/
theorem mistakes_le_allowanceAt (hbuild : c.build = .ok built)
    (hkind : kind.usesTargetTables = true)
    (hstill : ∀ b : Branch, b.kind = kind → (c.historyBits b).2 = 0)
    (hs : Usable c built s.predictor) {rounds : List Round}
    (hrounds : ∀ round ∈ rounds, round.Repeats pc kind target) :
    roundErrors s rounds = [] ∧ mistakes target s rounds ≤ allowanceAt pc target s := by
  induction rounds generalizing s with
  | nil => exact ⟨rfl, Nat.zero_le _⟩
  | cons round rest ih =>
      obtain ⟨hround, hrest⟩ := List.forall_mem_cons.1 hrounds
      have hnext : Usable c built (round.play s).predictor :=
        (hs.enter round).run round.visit.calls
      obtain ⟨herrors, -⟩ := play_spec hbuild hkind hstill hs hround
      obtain ⟨hclean, hmistakes⟩ := ih hnext hrest
      have hstep := allowanceAt_play hbuild hkind hstill hs hround
      rw [roundErrors, mistakes, herrors, hclean]
      exact ⟨rfl, by omega⟩

end Rounds

end Ittage

open Ittage in
/-- An indirect jump or call that inserts no history and always goes to the same target is
mispredicted a bounded number of times.  In every session of a predictor that was built, with other
branches in flight or without, and for any sequence of rounds that predict the branch, insert it and
commit it, whatever the draws: no call is refused, and the rounds that predict something else are no
more than there is usefulness in the way of an allocation, one more, and the steps of one confidence
counter for each table. -/
theorem constant_target_mistakes_le {c : Ittage.Config} {built : Ittage}
    (hbuild : c.build = .ok built) {kind : BranchKind} (hkind : kind.usesTargetTables = true)
    (hstill : ∀ b : Branch, b.kind = kind → (c.historyBits b).2 = 0)
    {s : Session Ittage Record} (hs : Reachable built s.predictor) (pc target : UInt64)
    {rounds : List Round} (hrounds : ∀ round ∈ rounds, round.Repeats pc kind target) :
    roundErrors s rounds = [] ∧ mistakes target s rounds ≤
      c.ladder.tables.length * (2 ^ c.ladder.usefulBits - 1) + 1 +
        c.ladder.tables.length * 2 ^ c.ladder.confidenceBits := by
  have husable := usable_of_reachable hbuild hs
  obtain ⟨hvalid, -⟩ := build_eq_ok hbuild
  obtain ⟨herrors, hmistakes⟩ := mistakes_le_allowanceAt hbuild hkind hstill husable hrounds
  exact ⟨herrors, hmistakes.trans (allowance_le (husable.descends.regular hbuild).ladder
    (c.ladder_of_validate hvalid) target _)⟩

/-- A jump that is inserted as predicted and repaired. -/
def repeatedJump (target : UInt64) : Visit where
  h := 0
  predicted := true
  pc := 4
  isConditional := false
  first := ⟨4, .indirectJump, .taken, 64⟩
  revisions := [(true, ⟨4, .indirectJump, .taken, target⟩)]
  resolved := ⟨4, .indirectJump, .taken, target⟩

/-- With a branch in flight, a jump goes to the same target four times. -/
def confidentRun : List Call :=
  [.predict 1 8 true, .update 1 ⟨8, .directBranch, .taken, 64⟩] ++
    (List.replicate 4 (repeatedJump 64)).flatMap Visit.calls

/-- Then it goes to another one for good, and is mispredicted until the entry has lost its
confidence. -/
theorem confidentRun_mistakes_le :
    let s := (Session.start Ittage.still).run confidentRun
    let rounds := List.replicate 5 (⟨repeatedJump 32, none⟩ : Ittage.Round) ++
      [⟨repeatedJump 32, some (.ofSeed 7)⟩]
    (s.records 1).isSome = true ∧ Ittage.mistakes 32 s rounds = 3 ∧
      Ittage.roundErrors s rounds = [] ∧
      Ittage.mistakes 32 s rounds ≤ 1 * (2 ^ 2 - 1) + 1 + 1 * 2 ^ 3 := by
  intro s rounds
  have hbuild : Ittage.stillConfig.build = .ok Ittage.still := rfl
  have hstill : ∀ b : Branch, b.kind = .indirectJump →
      (Ittage.stillConfig.historyBits b).2 = 0 := by
    intro b hb
    rw [Ittage.Config.historyBits, hb]
    rfl
  have hrounds : ∀ round ∈ rounds, round.Repeats 4 .indirectJump 32 := by
    intro round hround
    have hvisit : round.visit = repeatedJump 32 := by
      simp only [rounds, List.mem_append, List.mem_replicate, List.mem_singleton] at hround
      rcases hround with ⟨-, rfl⟩ | rfl
      · rfl
      · rfl
    constructor
    · rw [hvisit]
      rfl
    · rw [hvisit]
      rfl
    · rw [hvisit]
      decide
    · rw [hvisit]
      rfl
    · rw [hvisit]
      rfl
  have hreachable : Reachable Ittage.still s.predictor :=
    Session.reachable_run (s := Session.start Ittage.still) .origin confidentRun
  exact ⟨by decide +kernel, by decide +kernel,
    constant_target_mistakes_le hbuild rfl hstill hreachable 4 32 hrounds⟩

end BranchPrediction
