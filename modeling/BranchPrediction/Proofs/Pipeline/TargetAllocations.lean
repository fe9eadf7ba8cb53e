import BranchPrediction.Proofs.Learning.IttageLesson
import BranchPrediction.Proofs.Pipeline.Provenance
import BranchPrediction.Proofs.Pipeline.Visits

/-!
# When ITTAGE allocates

A visit to an indirect jump or call writes a new entry exactly if the prediction was wrong and an
allocation finds a free table past the longest match (`ladder_run_visit`, `allocations_learn`).
Nothing else is asked of the lookup.

TAGE asks for more: it does not allocate when the longest match is fresh and was right, and only the
alternate that it deferred to was wrong (`Tage.allocates`).  ITTAGE has no such exception, so that a
branch whose fresh entry stores the right target already can be given another one in a longer table
(`deferredJump_allocates`).
-/

namespace BranchPrediction

open SteppedPredictor Ladder

theorem Ladder.recipient?_mapFolds {P : Type} (g : FoldedHistory → FoldedHistory) (l : Ladder P)
    (slots : Array Slot) (hit? : Option Nat) (skip : Bool) :
    recipient? (mapFolds g l) slots hit? skip = l.recipient? slots hit? skip := by
  have hfree : isFree (mapFolds g l) slots = l.isFree slots := by
    funext bank
    rw [isFree, entry?_mapFolds, isFree]
  rw [recipient?, candidates_mapFolds, hfree, recipient?]

namespace Ittage

variable {c : Config} {s : Session Ittage Record} {v : Visit}

/-- A visit to an indirect jump or call teaches the ladder a lesson about the lookup of the branch,
with the draw that is made from the random state before the visit. -/
theorem ladder_run_visit (hs : Sound c s.predictor) (hpredicted : v.predicted = true)
    (hkind : v.resolved.kind.usesTargetTables = true) (herrors : s.errors v.calls = []) :
    ∃ (g : FoldedHistory → FoldedHistory) (r : Record),
      r.lookup = s.predictor.find v.pc v.isConditional ∧
      r.allocationSkip = (s.predictor.config.draw s.predictor.random).1 ∧
      (s.run v.calls).predictor.ladder =
        learn r v.resolved.target (mapFolds g s.predictor.ladder) := by
  obtain ⟨last, -, hrun⟩ := predictor_run_visit hs hpredicted herrors
  obtain ⟨g, hladder⟩ := exists_ladder_apply s.predictor
    (s.predictor.lookup v.pc v.isConditional) last
  refine ⟨g, (apply s.predictor (s.predictor.lookup v.pc v.isConditional) last).2,
    lookup_apply _ _ last, ?_, ?_⟩
  · rw [apply_eq]
  · rw [hrun, conclude_eq, concluded, if_pos hkind]
    exact congrArg (learn _ v.resolved.target) hladder

/-- If the longest match stores the target, the prediction is wrong exactly if the match defers to
an alternate that stores another one. -/
theorem target?_find_of_right {p : Ittage} {pc : UInt64} {isConditional : Bool} {target : UInt64}
    (hright : (p.find pc isConditional).longestTarget? = some target) :
    (p.find pc isConditional).target? ≠ some target ↔
      (p.find pc isConditional).source = .altMatch ∧
        (p.find pc isConditional).altTarget? ≠ some target := by
  rcases p.ladder.findMatches_cases (p.ladder.slots pc p.history.path) with
    ⟨hnone, -⟩ | ⟨hit, alt?, hsome, hmatch, -⟩
  · rw [find_of_none isConditional hnone] at hright
    cases hright
  · obtain ⟨e, -, he, -⟩ := (p.ladder.isMatch_eq_true_iff _).1 hmatch
    rw [find_of_some isConditional hsome he] at hright ⊢
    simp only at hright ⊢
    split
    · simp
    · simp [hright]

/-- The entry that a commit writes: past the longest match, for the target, and fresh. -/
theorem entry?_learn_of_received {r : Record} {target : UInt64} {ladder : Ladder Target}
    {bank : Nat} (h : received? r target ladder = some bank) :
    (∀ hit, r.lookup.hit? = some hit → hit < bank) ∧
      ∃ slot e, r.lookup.slots[bank]? = some slot ∧
        entry? (learn r target ladder) r.lookup.slots bank = some e ∧ e.tag? = some slot.tag ∧
        e.payload.address? = some target ∧ e.confidence.value = 0 ∧ e.useful.value = 0 := by
  obtain ⟨-, -, hpast, old, hold, -⟩ := received?_spec h
  obtain ⟨slot, hslot⟩ := exists_slot_of_entry hold
  have hmin := old.confidence.range.min_le_zero
  have hmax := old.confidence.range.zero_le_max
  have hconfidence : (old.confidence.set 0).value = 0 := by
    rw [Counter.value_set]
    omega
  refine ⟨past_le_iff.1 hpast, slot, (old.allocate slot.tag 0 ⟨some target⟩).settle ladder.isDue,
    hslot, ?_, ?_, ?_, ?_, ?_⟩
  · rw [entry?_learn hslot, hold, Option.map_some, lesson_of_received? h]
  · rw [TaggedEntry.tag?_settle]
    rfl
  · rw [TaggedEntry.payload_settle]
    rfl
  · rw [TaggedEntry.confidence_settle]
    exact hconfidence
  · have hsettle :=
      (old.allocate slot.tag 0 ⟨some target⟩).useful_settle_le ladder.isDue (le_refl _)
    exact le_antisymm hsettle.2 hsettle.1

end Ittage

/-- When a visit to an indirect jump or call allocates.  In every state that calls lead to, and for
every visit that is not refused: the allocations that are counted grow by one if the prediction was
wrong and an allocation with the draw of the branch finds a free table past the longest match, and
not otherwise; and then that table has a fresh entry for the target at its slot.  If the longest
match stored the target, that is so exactly if the prediction came from an alternate that stored
another one, and there is a free table. -/
theorem visit_allocates_iff {c : Ittage.Config} {built : Ittage} (hbuild : c.build = .ok built)
    {s : Session Ittage Ittage.Record} (hs : Reachable built s.predictor) {v : Visit}
    (hpredicted : v.predicted = true) (hkind : v.resolved.kind.usesTargetTables = true)
    (herrors : s.errors v.calls = []) :
    let before := s.predictor.ladder
    let after := (s.run v.calls).predictor.ladder
    let l := s.predictor.find v.pc v.isConditional
    let free? := before.recipient? l.slots l.hit? (s.predictor.config.draw s.predictor.random).1
    after.stats.allocations = before.stats.allocations +
        (l.target? ≠ some v.resolved.target && free?.isSome).toNat ∧
      (l.target? ≠ some v.resolved.target → ∀ bank, free? = some bank →
        (∀ hit, l.hit? = some hit → hit < bank) ∧ ∃ slot e, l.slots[bank]? = some slot ∧
          after.entry? l.slots bank = some e ∧ e.tag? = some slot.tag ∧
          e.payload.address? = some v.resolved.target ∧ e.confidence.value = 0 ∧
          e.useful.value = 0) ∧
      (l.longestTarget? = some v.resolved.target →
        (after.stats.allocations = before.stats.allocations + 1 ↔
          l.source = .altMatch ∧ l.altTarget? ≠ some v.resolved.target ∧
            free?.isSome = true)) := by
  intro before after l free?
  have hsound := (Ittage.kept_sound c).reachable (Ittage.sound_build hbuild) hs
  obtain ⟨g, r, hlookup, hskip, hladder⟩ :=
    Ittage.ladder_run_visit hsound hpredicted hkind herrors
  have hreceived : Ittage.received? r v.resolved.target (mapFolds g before) =
      if l.target? = some v.resolved.target then none else free? := by
    rw [Ittage.received?, hlookup, hskip, recipient?_mapFolds]
  have hcount : after.stats.allocations = before.stats.allocations +
      (l.target? ≠ some v.resolved.target && free?.isSome).toNat := by
    have hlearn : (Ittage.learn r v.resolved.target (mapFolds g before)).stats.allocations = _ :=
      Ittage.allocations_learn
    rw [← hladder, hreceived] at hlearn
    refine hlearn.trans (congrArg (before.stats.allocations + ·) ?_)
    split
    · next hcorrect => simp [hcorrect]
    · next hwrong => simp [hwrong]
  refine ⟨hcount, ?_, ?_⟩
  · intro hwrong bank hbank
    rw [if_neg hwrong, hbank] at hreceived
    have hwritten := Ittage.entry?_learn_of_received hreceived
    rw [← hladder, hlookup] at hwritten
    exact hwritten
  · intro hright
    rw [hcount, ← and_assoc, ← Ittage.target?_find_of_right hright]
    cases free?.isSome with
    | true => simp [l]
    | false => simp

/-- Three tables, and jumps that insert no history. -/
def Ittage.deferringConfig : Config where
  ladder :=
    { tables := [⟨2, 1, 2⟩, ⟨3, 1, 2⟩, ⟨4, 1, 2⟩]
      confidenceBits := 2
      usefulBits := 1
      useAltBuckets := 3
      allocationSkip := false
      pathBits := 3
      historyBufferBits := 8
      maxInFlightBits := 3 }
  indirectJumpBits := 0
  seed? := some 1

def Ittage.deferring : Ittage where
  config := deferringConfig
  ladder := .blank deferringConfig.ladder
  history := ⟨.zeros 8 (Nat.succ_pos 7), .empty 3, 4, 0⟩
  random := .ofSeed 1

/-- A jump that is inserted as it resolves. -/
def plainJump (target : UInt64) : Visit where
  h := 0
  predicted := true
  pc := 4
  isConditional := false
  first := ⟨4, .indirectJump, .taken, target⟩
  revisions := []
  resolved := ⟨4, .indirectJump, .taken, target⟩

/-- A jump goes to one target three times and then to another one. -/
def deferringRun : List Call :=
  [plainJump 64, plainJump 64, plainJump 64, plainJump 32].flatMap Visit.calls

theorem deferringRun_allocates_iff :
    let s := (Session.start Ittage.deferring).run deferringRun
    let l := s.predictor.find 4 false
    let after := (s.run (plainJump 32).calls).predictor.ladder
    s.errors (plainJump 32).calls = [] ∧ l.longestTarget? = some 32 ∧
      (after.stats.allocations = s.predictor.ladder.stats.allocations + 1 ↔
        l.source = .altMatch ∧ l.altTarget? ≠ some 32 ∧
          (s.predictor.ladder.recipient? l.slots l.hit?
            (s.predictor.config.draw s.predictor.random).1).isSome = true) := by
  intro s l after
  have hbuild : Ittage.deferringConfig.build = .ok Ittage.deferring := rfl
  have hs : Reachable Ittage.deferring s.predictor :=
    Session.reachable_run (s := Session.start Ittage.deferring) .origin deferringRun
  have herrors : s.errors (plainJump 32).calls = [] := by decide +kernel
  have hright : l.longestTarget? = some 32 := by decide +kernel
  obtain ⟨-, -, hiff⟩ := visit_allocates_iff hbuild hs (v := plainJump 32) rfl rfl herrors
  exact ⟨herrors, hright, hiff hright⟩

/-- The fresh entry of the jump stores the right target, but the alternate overrules it; and so the
commit allocates a third entry for the same branch. -/
theorem deferredJump_allocates :
    let s := (Session.start Ittage.deferring).run deferringRun
    let l := s.predictor.find 4 false
    Ittage.deferringConfig.build = .ok Ittage.deferring ∧
      (l.pseudoNew, l.longestTarget?, l.target?) = (true, some 32, some 64) ∧
      s.errors (plainJump 32).calls = [] ∧
      s.predictor.ladder.stats.allocations = 2 ∧
      (s.run (plainJump 32).calls).predictor.ladder.stats.allocations = 3 :=
  ⟨rfl, by decide +kernel, by decide +kernel, by decide +kernel, by decide +kernel⟩

end BranchPrediction
