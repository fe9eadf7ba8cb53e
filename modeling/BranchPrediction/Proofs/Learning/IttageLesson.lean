import BranchPrediction.Proofs.Learning.Matches
import BranchPrediction.Proofs.Learning.Readings

/-!
# The lesson of a commit of ITTAGE

What a commit does to the entries at the slots of its branch is here one function per table: first
the allocation, if the prediction was wrong, then the training of the longest match
(`Ittage.lesson`).  A commit teaches this lesson, moves one use-alt-on-new counter at most, counts,
and ends with a tick (`Ittage.learn_eq`).

A new entry is past the longest match, so that the commit that writes it does not train it, and a
search at the same slots finds it first (`findMatches_learn`).  It is the one allocation that the
commit counts (`allocations_learn`).
-/

namespace BranchPrediction

open Ladder

/-- Count a replacement of a target. -/
def LadderStats.countReplacement (replaced : Bool) (s : LadderStats) : LadderStats :=
  { s with targetReplacements := s.targetReplacements + replaced.toNat }

namespace Ittage

section Commit

variable (r : Record) (target : UInt64) (ladder : Ladder Target)

/-- The table that a commit gives a new entry. -/
def received? : Option Nat :=
  if r.lookup.target? = some target then none
  else ladder.recipient? r.lookup.slots r.lookup.hit? r.allocationSkip

def passedOver : List Nat :=
  if r.lookup.target? = some target then []
  else ladder.passed r.lookup.slots r.lookup.hit? r.allocationSkip

/-- What training makes of the entry that a table has at its slot. -/
def drill (l : Lookup) (target : UInt64) (bank : Nat) (e : TaggedEntry Target) :
    TaggedEntry Target :=
  if l.hit? = some bank then
    let e := if l.longestTarget? = some target then e.stepConfidence true else weaken target e
    if l.longestTarget? ≠ l.altTarget? then e.stepUseful (l.longestTarget? = some target) else e
  else e

/-- What a commit makes of the entry that a table has at its slot, before the tick. -/
def lesson (bank : Nat) (slot : Slot) (e : TaggedEntry Target) : TaggedEntry Target :=
  drill r.lookup target bank (grant 0 ⟨some target⟩ (received? r target ladder)
    (passedOver r target ladder) bank slot e)

/-- The use-alt-on-new counters after a commit: the one for the longest match has moved, if that was
fresh, the alternate disagreed and one of the two was right. -/
def alternated (l : Lookup) (target : UInt64) (ladder : Ladder Target) : Array Counter :=
  match l.hit? with
  | some bank =>
    if l.pseudoNew && l.longestTarget? ≠ l.altTarget?
        && (l.longestTarget? = some target || l.altTarget? = some target) then
      ladder.useAlt.modify (ladder.useAltIndex bank l.conditional)
        (·.step (l.altTarget? = some target))
    else ladder.useAlt
  | none => ladder.useAlt

/-- A commit replaces the target of the longest match. -/
def replaced (l : Lookup) (target : UInt64) (ladder : Ladder Target) : Bool :=
  l.hit?.any fun bank => l.longestTarget? ≠ some target && replaces l bank ladder

/-- What a commit makes of the ladder, before the tick. -/
def taught : Ladder Target :=
  { ladder.amend r.lookup.slots (lesson r target ladder) with
    useAlt := alternated r.lookup target ladder
    stats := ((ladder.stats.record r.lookup.source r.lookup.hit?
      (r.lookup.target? = some target)).countAllocation
        (r.lookup.target? ≠ some target &&
          ladder.candidates r.lookup.hit? r.allocationSkip ≠ [])
        (received? r target ladder).isSome).countReplacement (replaced r.lookup target ladder) }

variable {r}

theorem trainUseAlt_eq (l : Lookup) : trainUseAlt l target ladder =
    { ladder with useAlt := alternated l target ladder } := by
  unfold trainUseAlt alternated
  cases l.hit? with
  | none => rfl
  | some bank =>
      simp only
      split
      · rfl
      · rfl

theorem trainConfidence_eq (l : Lookup) (bank : Nat) : trainConfidence l bank target ladder =
    (ladder.amend l.slots fun bank' _ e =>
      if bank' = bank then
        if l.longestTarget? = some target then e.stepConfidence true else weaken target e
      else e).modifyStats
        (.countReplacement (l.longestTarget? ≠ some target && replaces l bank ladder)) := by
  unfold trainConfidence
  simp only [modifyEntry_eq_amend]
  by_cases hconfirmed : l.longestTarget? = some target
  · simp only [hconfirmed, ne_eq, not_true_eq_false, decide_false, Bool.false_and]
    rfl
  · simp only [ne_eq, hconfirmed, not_false_eq_true, decide_true, Bool.true_and]
    cases replaces l bank ladder with
    | true => rfl
    | false => rfl

theorem trainLongest_eq (l : Lookup) : trainLongest l target ladder =
    (ladder.amend l.slots fun bank _ => drill l target bank).modifyStats
      (.countReplacement (replaced l target ladder)) := by
  unfold trainLongest replaced
  cases hhit : l.hit? with
  | none =>
      have hnothing : (ladder.amend l.slots fun bank _ => drill l target bank) = ladder :=
        amend_eq_self fun _ _ _ _ _ => by simp [drill, hhit]
      rw [hnothing]
      rfl
  | some hit =>
      have huseful : ∀ k : Ladder Target, (if l.longestTarget? ≠ l.altTarget? then
            k.trainUseful l.slots hit (l.longestTarget? = some target)
          else k) = k.amend l.slots fun bank _ e =>
            if bank = hit ∧ l.longestTarget? ≠ l.altTarget? then
              e.stepUseful (l.longestTarget? = some target)
            else e := by
        intro k
        split
        · next hdiffer =>
            rw [trainUseful, modifyEntry_eq_amend]
            simp [hdiffer]
        · next hsame => exact (amend_eq_self fun _ _ _ _ _ => by simp [hsame]).symm
      simp only [Option.any_some]
      rw [huseful, trainConfidence_eq, amend_modifyStats, amend_amend]
      refine congrArg (modifyStats · _) (amend_congr fun bank slot e _ _ => ?_)
      by_cases hbank : bank = hit
      · subst hbank
        simp [drill, hhit]
      · simp [drill, hhit, hbank, Ne.symm hbank]

/-- What a commit allocates, when the prediction was wrong. -/
theorem allocate_eq_amend : (if r.lookup.target? = some target then ladder
    else (ladder.allocate r.lookup.slots r.lookup.hit? r.allocationSkip ⟨some target⟩ 0).1) =
      (ladder.amend r.lookup.slots (grant 0 ⟨some target⟩ (received? r target ladder)
        (passedOver r target ladder))).modifyStats (.countAllocation
          (r.lookup.target? ≠ some target &&
            ladder.candidates r.lookup.hit? r.allocationSkip ≠ [])
          (received? r target ladder).isSome) := by
  unfold received? passedOver
  split
  · next hcorrect =>
      have hnothing : ladder.amend r.lookup.slots (grant 0 ⟨some target⟩ none []) = ladder :=
        amend_eq_self fun _ _ _ _ _ => rfl
      rw [hnothing]
      simp only [hcorrect, ne_eq, not_true_eq_false, decide_false, Bool.false_and]
      rfl
  · next hwrong =>
      rw [allocate_eq]
      simp only [ne_eq, hwrong, not_false_eq_true, decide_true, Bool.true_and]

/-- Whether a commit replaces a target does not depend on the allocation. -/
theorem replaced_allocate (l : Lookup) (skip : Bool) (payload : Target) :
    replaced l target (ladder.allocate l.slots l.hit? skip payload 0).1 =
      replaced l target ladder := by
  unfold replaced
  cases hhit : l.hit? with
  | none => rfl
  | some hit => simp only [Option.any_some, replaces, entry?_allocate_hit]

/-- A commit teaches its lesson and ends with a tick. -/
theorem learn_eq : learn r target ladder = (taught r target ladder).tick := by
  set chosen : Ladder Target := { ladder with
    useAlt := alternated r.lookup target ladder
    stats := ladder.stats.record r.lookup.source r.lookup.hit? (r.lookup.target? = some target) }
  set allocated := if r.lookup.target? = some target then chosen
    else (chosen.allocate r.lookup.slots r.lookup.hit? r.allocationSkip ⟨some target⟩ 0).1
    with hallocated
  have hlearn : learn r target ladder = (trainLongest r.lookup target allocated).tick := by
    unfold learn
    simp only [decide_eq_true_iff]
    rw [trainUseAlt_eq]
    rfl
  have hreplaced : replaced r.lookup target allocated = replaced r.lookup target ladder := by
    rw [hallocated]
    split
    · rfl
    · exact replaced_allocate target chosen r.lookup r.allocationSkip _
  rw [hlearn, trainLongest_eq, hreplaced, hallocated, allocate_eq_amend, amend_modifyStats,
    amend_amend]
  rfl

theorem isDue_taught : (taught r target ladder).isDue = ladder.isDue :=
  congrArg (fun commits => decide ((commits + 1) % ladder.config.usefulResetPeriod = 0))
    (ladder.stats.record_counts r.lookup.source r.lookup.hit? (r.lookup.target? = some target)).1

theorem slots_learn (pc : UInt64) (path : PathHistory) :
    (learn r target ladder).slots pc path = ladder.slots pc path ∧
      (learn r target ladder).config = ladder.config ∧
      (learn r target ladder).size = ladder.size := by
  rw [learn_eq, slots_tick, config_tick, size_tick]
  exact ⟨ladder.slots_amend r.lookup.slots _ pc path, rfl, ladder.size_amend r.lookup.slots _⟩

end Commit

/-! ## New entries -/

section Received

variable {r : Record} {target : UInt64} {ladder : Ladder Target}

theorem received?_spec {bank : Nat} (h : received? r target ladder = some bank) :
    r.lookup.target? ≠ some target ∧ bank < ladder.size ∧ Ladder.past r.lookup.hit? ≤ bank ∧
      ∃ e, ladder.entry? r.lookup.slots bank = some e ∧ e.useful.value = 0 := by
  unfold received? at h
  split at h
  · cases h
  · next hwrong => exact ⟨hwrong, recipient?_spec h⟩

theorem ne_of_received? {bank : Nat} (h : received? r target ladder = some bank) :
    r.lookup.hit? ≠ some bank := by
  obtain ⟨-, -, hpast, -⟩ := received?_spec h
  intro hhit
  exact Nat.lt_irrefl bank (past_le_iff.1 hpast bank hhit)

theorem drill_of_ne {l : Lookup} {bank : Nat} (hhit : l.hit? ≠ some bank)
    (e : TaggedEntry Target) : drill l target bank e = e :=
  if_neg hhit

theorem isMatch_drill {l : Lookup} {bank tag : Nat} {e : TaggedEntry Target}
    (h : e.isMatch tag = true) : (drill l target bank e).isMatch tag = true := by
  have hweaken : (weaken target e).isMatch tag = true := by
    unfold weaken
    simp only
    split
    · simp only [TaggedEntry.isMatch, Bool.and_eq_true] at h ⊢
      exact ⟨h.1, rfl⟩
    · exact h
  have hkept : (if l.longestTarget? = some target then e.stepConfidence true
      else weaken target e).isMatch tag = true := by
    split
    · exact h
    · exact hweaken
  unfold drill
  split
  · simp only
    split
    · exact hkept
    · exact hkept
  · exact h

theorem lesson_of_received? {bank : Nat} (h : received? r target ladder = some bank) (slot : Slot)
    (e : TaggedEntry Target) :
    lesson r target ladder bank slot e = e.allocate slot.tag 0 ⟨some target⟩ := by
  rw [lesson, drill_of_ne (ne_of_received? h), grant, if_pos h]

theorem lesson_of_hit {hit : Nat} (hhit : r.lookup.hit? = some hit) (slot : Slot)
    (e : TaggedEntry Target) :
    lesson r target ladder hit slot e = drill r.lookup target hit e := by
  have hgrant : grant 0 ⟨some target⟩ (received? r target ladder) (passedOver r target ladder) hit
      slot e = e := by
    unfold received? passedOver
    split
    · rfl
    · rw [hhit]
      exact grant_of_lt_past (Nat.lt_succ_self hit) _ _ _ e
  rw [lesson, hgrant]

theorem lesson_of_ne {bank : Nat} (hhit : r.lookup.hit? ≠ some bank)
    (hreceived : received? r target ladder ≠ some bank) (slot : Slot) (e : TaggedEntry Target) :
    lesson r target ladder bank slot e =
      if bank ∈ passedOver r target ladder then e.stepUseful false else e := by
  rw [lesson, drill_of_ne hhit, grant, if_neg hreceived]

/-- A commit of a record of the present matches leaves them as they are, but for a new entry, which
comes first. -/
theorem findMatches_learn (hhit : r.lookup.hit? = (ladder.findMatches r.lookup.slots).1) :
    (learn r target ladder).findMatches r.lookup.slots =
      (received? r target ladder).elim (ladder.findMatches r.lookup.slots)
        fun bank => (some bank, r.lookup.hit?) := by
  rw [learn_eq, findMatches_tick, hhit]
  refine findMatches_amend (l := ladder) ?_ ?_
  · intro bank slot e hslot he
    by_cases hreceived : received? r target ladder = some bank
    · rw [lesson_of_received? hreceived]
      simp [TaggedEntry.isMatch, TaggedEntry.allocate, Payload.isInstalled, hreceived]
    · by_cases hlongest : r.lookup.hit? = some bank
      · have hmatch : e.isMatch slot.tag = true := by
          rcases ladder.findMatches_cases r.lookup.slots with
            ⟨hnone, -⟩ | ⟨hit, _, hsome, hmatch, -⟩
          · rw [hhit, hnone] at hlongest
            cases hlongest
          · rw [hhit, hsome] at hlongest
            obtain rfl := Option.some.inj hlongest
            obtain ⟨e', slot', he', hslot', hmatch⟩ := (ladder.isMatch_eq_true_iff _).1 hmatch
            obtain rfl := Option.some.inj (he'.symm.trans he)
            obtain rfl := Option.some.inj (hslot'.symm.trans hslot)
            exact hmatch
        rw [lesson_of_hit hlongest]
        exact iff_of_true (isMatch_drill hmatch) (.inr hmatch)
      · rw [lesson_of_ne hlongest hreceived, or_iff_right hreceived]
        split
        · rfl
        · rfl
  · intro bank hreceived
    obtain ⟨-, -, hpast, e, he, -⟩ := received?_spec hreceived
    exact ⟨hhit ▸ hpast, e, he⟩

/-- What a commit makes of the entry that a table has at its slot. -/
theorem entry?_learn {bank : Nat} {slot : Slot} (hslot : r.lookup.slots[bank]? = some slot) :
    entry? (learn r target ladder) r.lookup.slots bank =
      (ladder.entry? r.lookup.slots bank).map fun e =>
        (lesson r target ladder bank slot e).settle ladder.isDue := by
  rw [learn_eq, entry?_tick, isDue_taught]
  refine (congrArg (Option.map _) (entry?_amend hslot _)).trans ?_
  rw [Option.map_map]
  rfl

/-- A commit counts an allocation exactly if it writes a new entry. -/
theorem allocations_learn : (learn r target ladder).stats.allocations =
    ladder.stats.allocations + (received? r target ladder).isSome.toNat := by
  have hrecord := (ladder.stats.record_counts r.lookup.source r.lookup.hit?
    (r.lookup.target? = some target)).2.1
  rw [learn_eq, allocations_tick]
  change (LadderStats.record _ _ _ _).allocations + _ = _
  rw [hrecord]
  cases hreceived : received? r target ladder with
  | none => rw [Option.isSome_none, Bool.and_false]
  | some bank =>
      have hwrong := (received?_spec hreceived).1
      have hcandidates : ladder.candidates r.lookup.hit? r.allocationSkip ≠ [] := by
        rw [received?, if_neg hwrong] at hreceived
        exact List.ne_nil_of_mem (List.mem_of_find?_eq_some hreceived)
      simp [hwrong, hcandidates]

end Received

end Ittage

end BranchPrediction
