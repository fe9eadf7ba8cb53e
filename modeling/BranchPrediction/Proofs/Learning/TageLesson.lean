import BranchPrediction.Proofs.Learning.Matches
import BranchPrediction.Proofs.Learning.Readings

/-!
# The lesson of a commit of TAGE

What a commit does to the entries at the slots of its branch, step after step, is here one function
per table: first the allocation, if one is due, then the training (`Tage.lesson`).  A commit teaches
this lesson, moves one use-alt-on-new counter at most, counts, and ends with a tick
(`Tage.ladder_commit`).

The longest match and its alternate are two tables in every prediction, and a new entry is in a
third, past both (`ne_of_received?`).  So the commit that writes it does not train it, and a search
at the same slots finds it as the longest match (`findMatches_commit`).
-/

namespace BranchPrediction

open Ladder

namespace Tage

section Commit

variable (t : Tage) (p : Prediction) (outcome finalOutcome : Direction) (skip : Bool)

/-- The table that a commit gives a new entry. -/
def received? : Option Nat :=
  if allocates p outcome finalOutcome then t.ladder.recipient? p.slots p.hit? skip else none

def passedOver : List Nat :=
  if allocates p outcome finalOutcome then t.ladder.passed p.slots p.hit? skip else []

/-- The entry of the longest match has no usefulness, so that its alternate is trained with it. -/
def trainsAlt : Bool :=
  p.hit?.any (t.ladder.isFree p.slots)

/-- What training makes of the entry that a table has at its slot. -/
def drill (trainsAlt : Bool) (p : Prediction) (outcome : Direction) (bank : Nat)
    (e : TaggedEntry SignOnly) : TaggedEntry SignOnly :=
  if p.hit? = some bank then
    let e := e.stepConfidence outcome.isTaken
    if p.longestOutcome ≠ p.altOutcome then e.stepUseful (p.longestOutcome = outcome) else e
  else if trainsAlt ∧ p.alt? = some bank then e.stepConfidence outcome.isTaken
  else e

/-- What a commit makes of the entry that a table has at its slot, before the tick. -/
def lesson (bank : Nat) (slot : Slot) (e : TaggedEntry SignOnly) : TaggedEntry SignOnly :=
  drill (t.trainsAlt p) p outcome bank
    (grant (initialConfidence outcome) ⟨⟩ (t.received? p outcome finalOutcome skip)
      (t.passedOver p outcome finalOutcome skip) bank slot e)

/-- The use-alt-on-new counters after a commit: the one for the longest match has moved, if that was
fresh and the alternate disagreed. -/
def alternated : Array Counter :=
  match p.hit? with
  | some bank =>
    if p.pseudoNew && p.longestOutcome ≠ p.altOutcome then
      t.ladder.useAlt.modify (t.ladder.useAltIndex bank p.conditional)
        (·.step (p.altOutcome = outcome))
    else t.ladder.useAlt
  | none => t.ladder.useAlt

/-- What a commit makes of the ladder, before the tick. -/
def taught : Ladder SignOnly :=
  { t.ladder.amend p.slots (t.lesson p outcome finalOutcome skip) with
    useAlt := t.alternated p outcome
    stats := (t.ladder.stats.record p.source p.hit? (p.outcome = outcome)).countAllocation
      (allocates p outcome finalOutcome && t.ladder.candidates p.hit? skip ≠ [])
      (t.received? p outcome finalOutcome skip).isSome }

variable {t p}

theorem isDue_taught : (t.taught p outcome finalOutcome skip).isDue = t.ladder.isDue :=
  congrArg (fun commits => decide ((commits + 1) % t.ladder.config.usefulResetPeriod = 0))
    (t.ladder.stats.record_counts p.source p.hit? (p.outcome = outcome)).1

theorem trainUseAlt_eq : t.trainUseAlt p outcome =
    ⟨t.base, { t.ladder with useAlt := t.alternated p outcome }⟩ := by
  unfold trainUseAlt alternated
  cases p.hit? with
  | none => rfl
  | some bank =>
      simp only
      split
      · rfl
      · rfl

theorem ladder_trainFallback : (t.trainFallback p outcome).ladder =
    t.ladder.amend p.slots fun bank _ e =>
      if p.alt? = some bank then e.stepConfidence outcome.isTaken else e := by
  unfold trainFallback
  cases p.alt? with
  | none => exact (amend_eq_self fun _ _ _ _ _ => rfl).symm
  | some alt =>
      simp only [ladder_modifyLadder, modifyEntry_eq_amend, Option.some_inj, eq_comm]

/-- The training of the counters after a match: the longest match, then perhaps what would have
answered in its place, then perhaps the usefulness of the longest match. -/
theorem trainCounters_of_hit {hit : Nat} (hhit : p.hit? = some hit) :
    t.trainCounters p outcome =
      let trained := t.modifyLadder (·.modifyEntry p.slots hit (·.stepConfidence outcome.isTaken))
      let trained := if t.trainsAlt p then trained.trainFallback p outcome else trained
      if p.longestOutcome ≠ p.altOutcome then
        trained.modifyLadder (·.trainUseful p.slots hit (p.longestOutcome = outcome))
      else trained := by
  unfold trainCounters trainsAlt
  rw [hhit, Option.any_some, isFree]
  simp only
  cases t.ladder.entry? p.slots hit with
  | none => rfl
  | some e => rfl

/-- The training of the counters, when the longest match and its alternate are two tables. -/
theorem ladder_trainCounters (hdescend : Descend p.hit? p.alt?) :
    (t.trainCounters p outcome).ladder =
      t.ladder.amend p.slots fun bank _ => drill (t.trainsAlt p) p outcome bank := by
  cases hhit : p.hit? with
  | none =>
      unfold trainCounters
      rw [hhit]
      exact (amend_eq_self fun _ _ _ _ _ => by simp [drill, hhit, trainsAlt]).symm
  | some hit =>
      have hfallback : ∀ trained : Tage,
          (if t.trainsAlt p then trained.trainFallback p outcome else trained).ladder =
            trained.ladder.amend p.slots fun bank _ e =>
              if t.trainsAlt p ∧ p.alt? = some bank then e.stepConfidence outcome.isTaken
              else e := by
        intro trained
        cases t.trainsAlt p with
        | true => simp [ladder_trainFallback]
        | false => exact (amend_eq_self fun _ _ _ _ _ => by simp).symm
      have huseful : ∀ trained : Tage, (if p.longestOutcome ≠ p.altOutcome then
            trained.modifyLadder (·.trainUseful p.slots hit (p.longestOutcome = outcome))
          else trained).ladder = trained.ladder.amend p.slots fun bank _ e =>
            if bank = hit ∧ p.longestOutcome ≠ p.altOutcome then
              e.stepUseful (p.longestOutcome = outcome)
            else e := by
        intro trained
        split
        · next hdiffer =>
            rw [ladder_modifyLadder, trainUseful, modifyEntry_eq_amend]
            simp [hdiffer]
        · next hsame => exact (amend_eq_self fun _ _ _ _ _ => by simp [hsame]).symm
      rw [trainCounters_of_hit outcome hhit]
      simp only
      rw [huseful, hfallback, ladder_modifyLadder, modifyEntry_eq_amend, amend_amend, amend_amend]
      refine amend_congr fun bank slot e _ _ => ?_
      by_cases hbank : bank = hit
      · subst hbank
        simp [drill, hhit, hdescend.ne hhit]
      · simp [drill, hhit, hbank, Ne.symm hbank]

theorem ladder_allocate : (t.allocate p outcome finalOutcome skip).ladder =
    (t.ladder.amend p.slots (grant (initialConfidence outcome) ⟨⟩
      (t.received? p outcome finalOutcome skip)
      (t.passedOver p outcome finalOutcome skip))).modifyStats (.countAllocation
        (allocates p outcome finalOutcome && t.ladder.candidates p.hit? skip ≠ [])
        (t.received? p outcome finalOutcome skip).isSome) := by
  unfold Tage.allocate received? passedOver
  cases allocates p outcome finalOutcome with
  | true =>
      simp only [if_true, Bool.true_and]
      rw [ladder_modifyLadder, allocate_eq]
  | false =>
      have hnothing : t.ladder.amend p.slots (grant (initialConfidence outcome) ⟨⟩ none []) =
          t.ladder :=
        amend_eq_self fun _ _ _ _ _ => rfl
      simp only [Bool.false_eq_true, if_false, Bool.false_and]
      rw [hnothing]
      rfl

/-- Whether the alternate is trained does not depend on the allocation. -/
theorem trainsAlt_allocate :
    (t.allocate p outcome finalOutcome skip).trainsAlt p = t.trainsAlt p := by
  unfold trainsAlt
  cases hhit : p.hit? with
  | none => rfl
  | some hit =>
      unfold Tage.allocate
      split
      · rw [Option.any_some, Option.any_some, ladder_modifyLadder, hhit, isFree,
          entry?_allocate_hit, isFree]
      · rfl

/-- A commit teaches its lesson and ends with a tick. -/
theorem ladder_commit (hdescend : Descend p.hit? p.alt?) :
    (t.commit p outcome finalOutcome skip).ladder =
      (t.taught p outcome finalOutcome skip).tick := by
  set chosen : Tage := ⟨t.base, { t.ladder with
    useAlt := t.alternated p outcome
    stats := t.ladder.stats.record p.source p.hit? (p.outcome = outcome) }⟩
  have hcommit : (t.commit p outcome finalOutcome skip).ladder =
      ((chosen.allocate p outcome finalOutcome skip).trainCounters p outcome).ladder.tick := by
    unfold commit
    simp only
    rw [trainUseAlt_eq]
    rfl
  rw [hcommit, ladder_trainCounters outcome hdescend, trainsAlt_allocate, ladder_allocate,
    amend_modifyStats, amend_amend]
  rfl

end Commit

/-! ## New entries -/

section Received

variable {t : Tage} {p : Prediction} {outcome finalOutcome : Direction} {skip : Bool}

theorem tag?_drill (trainsAlt : Bool) (bank : Nat) (e : TaggedEntry SignOnly) :
    (drill trainsAlt p outcome bank e).tag? = e.tag? := by
  unfold drill
  split
  · simp only
    split
    · rfl
    · rfl
  · split
    · rfl
    · rfl

theorem drill_of_ne {bank : Nat} (hhit : p.hit? ≠ some bank) (halt : p.alt? ≠ some bank)
    (trainsAlt : Bool) (e : TaggedEntry SignOnly) : drill trainsAlt p outcome bank e = e := by
  rw [drill, if_neg hhit, if_neg fun h => halt h.2]

/-- The table of a new entry is past the longest match, and the allocation was due. -/
theorem received?_spec {bank : Nat} (h : t.received? p outcome finalOutcome skip = some bank) :
    allocates p outcome finalOutcome = true ∧ bank < t.ladder.size ∧ Ladder.past p.hit? ≤ bank ∧
      ∃ e, t.ladder.entry? p.slots bank = some e ∧ e.useful.value = 0 := by
  unfold received? at h
  split at h
  · next hdue => exact ⟨hdue, recipient?_spec h⟩
  · cases h

theorem ne_of_received? (hdescend : Descend p.hit? p.alt?) {bank : Nat}
    (h : t.received? p outcome finalOutcome skip = some bank) :
    p.hit? ≠ some bank ∧ p.alt? ≠ some bank := by
  obtain ⟨-, -, hpast, -⟩ := received?_spec h
  rw [past_le_iff] at hpast
  constructor
  · intro hhit
    exact Nat.lt_irrefl bank (hpast bank hhit)
  · intro hsome
    obtain ⟨hit, hhit, hlt⟩ := hdescend bank hsome
    exact Nat.lt_asymm hlt (hpast hit hhit)

theorem lesson_of_received? (hdescend : Descend p.hit? p.alt?) {bank : Nat}
    (h : t.received? p outcome finalOutcome skip = some bank) (slot : Slot)
    (e : TaggedEntry SignOnly) :
    t.lesson p outcome finalOutcome skip bank slot e =
      e.allocate slot.tag (initialConfidence outcome) ⟨⟩ := by
  obtain ⟨hhit, halt⟩ := ne_of_received? hdescend h
  rw [lesson, drill_of_ne hhit halt, grant, if_pos h]

theorem tag?_lesson {bank : Nat} (h : t.received? p outcome finalOutcome skip ≠ some bank)
    (slot : Slot) (e : TaggedEntry SignOnly) :
    (t.lesson p outcome finalOutcome skip bank slot e).tag? = e.tag? := by
  rw [lesson, tag?_drill, grant, if_neg h]
  split
  · rfl
  · rfl

/-- A commit trains the counter of the longest match, and does not allocate there. -/
theorem confidence_lesson_hit {hit : Nat} (hhit : p.hit? = some hit) (slot : Slot)
    (e : TaggedEntry SignOnly) :
    (t.lesson p outcome finalOutcome skip hit slot e).confidence = e.confidence.train outcome := by
  have hgrant : grant (initialConfidence outcome) ⟨⟩ (t.received? p outcome finalOutcome skip)
      (t.passedOver p outcome finalOutcome skip) hit slot e = e := by
    unfold received? passedOver
    split
    · rw [hhit]
      exact grant_of_lt_past (Nat.lt_succ_self hit) _ _ _ e
    · rfl
  rw [lesson, hgrant, drill, if_pos hhit]
  simp only
  split
  · rfl
  · rfl

/-- A commit of a record of the present matches leaves them as they are, but for a new entry, which
comes first. -/
theorem findMatches_commit (hhit : p.hit? = (t.ladder.findMatches p.slots).1)
    (hdescend : Descend p.hit? p.alt?) :
    (t.commit p outcome finalOutcome skip).ladder.findMatches p.slots =
      (t.received? p outcome finalOutcome skip).elim (t.ladder.findMatches p.slots)
        fun bank => (some bank, p.hit?) := by
  rw [ladder_commit outcome finalOutcome skip hdescend, findMatches_tick, hhit]
  refine findMatches_amend (l := t.ladder) ?_ ?_
  · intro bank slot e _ _
    by_cases hreceived : t.received? p outcome finalOutcome skip = some bank
    · rw [lesson_of_received? hdescend hreceived]
      simp [TaggedEntry.isMatch, TaggedEntry.allocate, Payload.isInstalled, hreceived]
    · simp [TaggedEntry.isMatch, tag?_lesson hreceived, hreceived]
  · intro bank hreceived
    obtain ⟨-, -, hpast, e, he, -⟩ := received?_spec hreceived
    exact ⟨hhit ▸ hpast, e, he⟩

theorem entry?_commit (hdescend : Descend p.hit? p.alt?) {bank : Nat} {slot : Slot}
    (hslot : p.slots[bank]? = some slot) :
    (t.commit p outcome finalOutcome skip).ladder.entry? p.slots bank =
      (t.ladder.entry? p.slots bank).map fun e =>
        (t.lesson p outcome finalOutcome skip bank slot e).settle t.ladder.isDue := by
  rw [ladder_commit outcome finalOutcome skip hdescend, entry?_tick, isDue_taught]
  refine (congrArg (Option.map _) (entry?_amend hslot _)).trans ?_
  rw [Option.map_map]
  rfl

end Received

end Tage

end BranchPrediction
