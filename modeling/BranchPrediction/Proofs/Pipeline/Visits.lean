import BranchPrediction.Proofs.Pipeline.Reset
import BranchPrediction.Proofs.Pipeline.Serial

/-!
# Visits of ITTAGE, written out

Whatever records the calls were given, the bits in flight leave room beside the longest history that
is read (`KeepsHistory.hasRoom`), so that a branch which inserts no bits is never refused.

A visit that ITTAGE does not refuse comes down to one contribution, that of the branch which was
inserted last, and its commit (`Ittage.run_visit`).  This holds in every sound state, with other
branches in flight or without.
-/

namespace BranchPrediction

open SteppedPredictor HistoryKeeper SpeculativeHistory

/-! ## Room -/

namespace SpeculativeHistory

/-- The bits in flight have room beside the longest history that is read. -/
def HasRoom (h : SpeculativeHistory) : Prop :=
  h.inFlight + h.longest < h.register.size

variable {h h' : SpeculativeHistory}

theorem HasRoom.of_le (hroom : h.HasRoom) (hdimensions : h'.dimensions = h.dimensions)
    (hinFlight : h'.inFlight ≤ h.inFlight) : h'.HasRoom := by
  obtain ⟨hsize, hlongest⟩ := Prod.mk.inj hdimensions
  unfold HasRoom at hroom ⊢
  omega

theorem HasRoom.undone (hroom : h.HasRoom) (c? : Option Checkpoint) : (h.undone c?).HasRoom :=
  hroom.of_le (dimensions_undone h c?) (by rw [inFlight_undone]; exact Nat.sub_le _ _)

theorem HasRoom.retired (hroom : h.HasRoom) (contribution? : Option Contribution) :
    (h.retired contribution?).HasRoom := by
  refine hroom.of_le (dimensions_retired h contribution?) ?_
  cases contribution? with
  | none => exact le_refl _
  | some c => exact Nat.sub_le _ _

theorem hasRoom_insert {bits : UInt64 × Nat} (hroom : h.appendError? bits.2 = none)
    (pc : UInt64) : (h.insert bits pc).2.HasRoom := by
  have hfits := lt_of_appendError? hroom
  obtain ⟨hsize, hlongest⟩ := Prod.mk.inj (dimensions_insert h bits pc)
  unfold HasRoom
  rw [inFlight_insert]
  omega

theorem HasRoom.appendError?_zero (hroom : h.HasRoom) : h.appendError? 0 = none := by
  unfold HasRoom at hroom
  simp only [appendError?, overflow?, Nat.not_lt_zero, if_false, Nat.add_zero]
  rw [if_neg (by omega), Option.map_none]

end SpeculativeHistory

section Room

variable {P R Q : Type} [SpeculativePredictor P R Q] [SteppedPredictor P] [HistoryKeeper P]
  {Sound : P → Prop}

theorem KeepsHistory.hasRoom_update (laws : KeepsHistory Sound) {p : P}
    (hp : (history p).HasRoom) (r : R) (b : Branch) :
    (history (SpeculativePredictor.update p r b).predictor).HasRoom := by
  rw [update_eq]
  split
  · exact hp
  · split
    · exact hp
    · have hundone : (history (undo p (finalize p r b.pc)).1).HasRoom := by
        rw [laws.history_undo]
        exact hp.undone _
      simp only
      split
      · exact hundone
      · next hroom =>
          rw [laws.appendError?_eq] at hroom
          rw [laws.history_apply]
          exact hasRoom_insert hroom b.pc

/-- The room that a commit leaves. -/
theorem KeepsHistory.hasRoom_commit (laws : KeepsHistory Sound) {p : P}
    (hp : (history p).HasRoom) (r : R) (b : Branch) :
    (history (SpeculativePredictor.commit p r b).predictor).HasRoom := by
  rw [commit_eq]
  split
  · exact hp
  · split
    · rw [laws.history_conclude]
      exact hp.retired _
    · split
      · exact hp
      · next hroom =>
          rw [laws.appendError?_eq] at hroom
          rw [laws.history_conclude, laws.history_apply]
          exact (hasRoom_insert hroom b.pc).retired _

/-- In every state that calls lead to, there is room beside the bits in flight. -/
theorem KeepsHistory.hasRoom (laws : KeepsHistory Sound) {origin p : P}
    (horigin : (history origin).HasRoom) (h : Reachable origin p) : (history p).HasRoom := by
  induction h with
  | origin => exact horigin
  | update _ r b ih => exact laws.hasRoom_update ih r b
  | repair _ r b ih =>
      rw [repair_eq]
      exact laws.hasRoom_update (by rwa [laws.history_countRepair]) r b
  | commit _ r b ih => exact laws.hasRoom_commit ih r b
  | squash _ r ih =>
      rw [squash_eq]
      split
      · exact ih
      · split
        · exact ih
        · rw [laws.history_undo]
          exact ih.undone _
  | reset _ ih =>
      rw [laws.history_reset]
      exact ih.of_le (dimensions_clear _) (Nat.zero_le _)

end Room

/-! ## Visits -/

namespace Ittage

open Session

variable {c : Config} {s : Session Ittage Record}

/-- The record that a visit makes, with its lookup. -/
def visited (p : Ittage) (v : Visit) : Record :=
  p.finalize (newRecord p v.predicted v.pc v.isConditional) v.first.pc

/-- Revisions of a branch whose history is inserted answer no error exactly if each of them has
room, and leave the contribution of the last one. -/
theorem run_revisions (hs : Sound c s.predictor) {r : Record} (hanchored : Anchored s.predictor r)
    (h : Nat) (revisions : List (Bool × Branch)) {b : Branch}
    (hroom : s.predictor.appendError? b = none) :
    let calls := revisions.map fun revision => .revise h revision.1 revision.2
    ((s.push h r b).errors calls = [] ↔
        ∀ revision ∈ revisions, s.predictor.appendError? revision.2 = none) ∧
      ((∀ revision ∈ revisions, s.predictor.appendError? revision.2 = none) →
        ∃ last ∈ b :: revisions.map (·.2),
          s.predictor.appendError? last = none ∧ (s.push h r b).run calls = s.push h r last) := by
  induction revisions generalizing b with
  | nil => exact ⟨by simp [errors], fun _ => ⟨b, List.mem_cons_self, hroom, rfl⟩⟩
  | cons revision revisions ih =>
      have hrevise : (s.push h r b).perform (.revise h revision.1 revision.2) =
          (s.attempt h r (undo (apply s.predictor r b).1 (apply s.predictor r b).2).2 revision.2,
            s.predictor.appendError? revision.2) := by
        refine Eq.trans ?_ ((rewinds c).perform_update_push h hs hanchored hroom revision.2)
        cases revision.1 with
        | true => rfl
        | false => rfl
      simp only [List.map_cons, errors, run_cons, hrevise, List.append_eq_nil_iff,
        Option.toList_eq_nil_iff, List.forall_mem_cons]
      by_cases hfits : s.predictor.appendError? revision.2 = none
      · obtain ⟨hiff, hend⟩ := ih hfits
        rw [attempt_of_room hfits]
        refine ⟨and_congr_right fun _ => hiff, fun hall => ?_⟩
        obtain ⟨last, hlast, hroom', hrun⟩ := hend hall.2
        exact ⟨last, List.mem_cons_of_mem b hlast, hroom', hrun⟩
      · exact ⟨by simp [hfits], fun hall => absurd hall.1 hfits⟩

/-- A visit answers no error exactly if every branch that it inserts has room; and then it comes
down to the contribution of one of them, and its commit. -/
theorem run_visit (hs : Sound c s.predictor) (v : Visit) :
    (s.errors v.calls = [] ↔ ∀ b ∈ v.inserted, s.predictor.appendError? b = none) ∧
      ((∀ b ∈ v.inserted, s.predictor.appendError? b = none) →
        ∃ last ∈ v.inserted, s.predictor.appendError? last = none ∧
          s.run v.calls = (s.push v.h (visited s.predictor v) last).settle v.h
            (apply s.predictor (visited s.predictor v) last).2 v.resolved) := by
  have laws := rewinds c
  obtain ⟨r, hr, hanchored, hupdate⟩ := laws.perform_update_new hs v.h v.predicted v.pc
    v.isConditional v.first
  change r = visited s.predictor v at hr
  subst hr
  have hcommit : ∀ last, (s.push v.h (visited s.predictor v) last).perform
      (.commit v.h v.resolved) = ((s.push v.h (visited s.predictor v) last).settle v.h
        (apply s.predictor (visited s.predictor v) last).2 v.resolved, none) := by
    intro last
    exact perform_commit (records_push_self s v.h _ last) (laws.accepts_push hanchored last)
      (laws.finalize_applied hanchored last _ _) (laws.isSome_contribution?_applied _ _ last)
  rw [Visit.calls, Visit.inserted, List.forall_mem_cons, List.forall_mem_map, List.cons_append,
    List.cons_append, errors, errors, run_cons, run_cons, perform_create, hupdate,
    Option.toList_none, List.nil_append, List.append_eq_nil_iff, Option.toList_eq_nil_iff,
    errors_append, run_append, List.append_eq_nil_iff]
  by_cases hfirst : s.predictor.appendError? v.first = none
  · obtain ⟨hiff, hend⟩ := run_revisions hs hanchored v.h v.revisions hfirst
    rw [attempt_of_room hfirst, hiff]
    refine ⟨⟨fun h => ⟨h.1, h.2.1⟩, fun h => ⟨h.1, h.2, ?_⟩⟩, fun h => ?_⟩
    · obtain ⟨last, -, -, hrun⟩ := hend h.2
      rw [hrun, errors, hcommit]
      rfl
    · obtain ⟨last, hlast, hroom, hrun⟩ := hend h.2
      refine ⟨last, hlast, hroom, ?_⟩
      rw [hrun, run_cons, hcommit, run_nil]
  · exact ⟨iff_of_false (fun h => hfirst h.1) (fun h => hfirst h.1), fun h => absurd h.1 hfirst⟩

/-- What a visit makes of the predictor, if its branch is looked up when it is fetched. -/
theorem predictor_run_visit (hs : Sound c s.predictor) {v : Visit} (hpredicted : v.predicted = true)
    (herrors : s.errors v.calls = []) :
    ∃ last ∈ v.inserted,
      let applied := apply s.predictor (s.predictor.lookup v.pc v.isConditional) last
      (s.run v.calls).predictor = conclude applied.1 applied.2 v.resolved := by
  obtain ⟨hiff, hend⟩ := run_visit hs v
  obtain ⟨last, hlast, -, hrun⟩ := hend (hiff.1 herrors)
  have hvisited : visited s.predictor v = s.predictor.lookup v.pc v.isConditional := by
    unfold visited newRecord
    rw [hpredicted]
    rfl
  refine ⟨last, hlast, ?_⟩
  rw [hrun, hvisited]
  rfl

end Ittage

end BranchPrediction
