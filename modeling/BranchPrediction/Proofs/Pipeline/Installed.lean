import BranchPrediction.Proofs.Learning.Longest
import BranchPrediction.Proofs.Pipeline.Provenance

/-!
# An allocated entry answers

ITTAGE compares the tag of an entry first and then asks whether there is a target.  The second
question is never answered in the negative: an allocation writes tag and target together, and
nothing but a reset takes either away.  This is so for whatever records the calls were given, stale
or invented ones included (`Ittage.installed_of_reachable`).  A record that fits no lookup may well
leave a target in an entry without a tag; that entry is not found.
-/

namespace BranchPrediction

namespace Ittage

open Ladder SteppedPredictor

theorem installed_weaken (target : UInt64) {e : TaggedEntry Target} (h : e.Installed) :
    (weaken target e).Installed := by
  unfold weaken
  simp only
  split
  · exact fun _ => rfl
  · exact h

theorem installed_learn {ladder : Ladder Target} (h : ladder.Entrywise TaggedEntry.Installed)
    (r : Record) (target : UInt64) :
    (learn r target ladder).Entrywise TaggedEntry.Installed := by
  have hlearns : Learns r.lookup.slots
      (fun _ f => ∀ e : TaggedEntry Target, e.Installed → (f e).Installed) ladder
      (learn r target ladder) := by
    apply learns_learn
    · exact fun _ up e he => he
    · exact fun _ up e he => he
    · exact fun _ _ e => installed_weaken target
    · exact fun _ tag e _ _ => rfl
  -- nothing need be known of the longest match
  refine hlearns.entrywise (T := fun _ => True) (fun _ _ _ _ _ => trivial) (fun _ _ => trivial)
    (fun _ _ hf e _ => hf e) (fun _ he => he) (fun _ (hbank : none = some _) => ?_) h
  cases hbank

theorem kept_installed :
    Kept fun p : Ittage => p.ladder.Entrywise TaggedEntry.Installed where
  apply {p} h r b := by
    obtain ⟨g, hladder⟩ := exists_ladder_apply p r b
    change (apply p r b).1.ladder.Entrywise _
    rw [hladder]
    exact h.mapFolds g
  undo {p} h r := by
    obtain ⟨g, hladder⟩ := exists_ladder_undo p r
    change (undo p r).1.ladder.Entrywise _
    rw [hladder]
    exact h.mapFolds g
  conclude {p} h r b := by
    change (conclude p r b).ladder.Entrywise _
    rcases conclude_cases p r b with hsame | ⟨-, hlearn⟩
    · rw [hsame]
      exact h
    · rw [hlearn]
      exact installed_learn h r b.target
  countRepair h := h
  reset {p} _ := by
    change p.reset.ladder.Entrywise _
    rcases p with ⟨config, ladder, history, random⟩
    refine (entrywise_reset ladder).mono ?_
    rintro e ⟨old, rfl⟩
    exact fun htag => by cases htag

/-- In every state that calls lead to, with whatever records, each entry with a tag has a target. -/
theorem installed_of_reachable {c : Config} {built p : Ittage} (hbuild : c.build = .ok built)
    (h : Reachable built p) : p.ladder.Entrywise TaggedEntry.Installed := by
  refine kept_installed.reachable ?_ h
  obtain ⟨-, -, history, -, rfl⟩ := exists_of_build hbuild
  refine (entrywise_blank c.ladder).mono ?_
  rintro e ⟨confidence, useful, rfl⟩
  exact fun htag => by cases htag

end Ittage

end BranchPrediction
