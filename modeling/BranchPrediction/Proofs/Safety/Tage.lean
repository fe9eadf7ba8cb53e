import BranchPrediction.Proofs.Safety.Access

/-!
# Checked lookups and commits of TAGE

A lookup reads the tables at the slots that it just computed, so that no check fails as long as the
ladder is ready.  A commit reads and writes them at the slots of a record, however old; it is enough
that the record fits, since what a commit changes are never the sizes (`Tage.checkedCommit_eq`).
-/

namespace BranchPrediction

namespace Tage

open Ladder

/-! ## Lookup -/

/-- The counter that answers when the longest match does not. -/
def checkedAltCounter (t : Tage) (slots : Array Slot) (alt? : Option Nat) (baseIndex : Nat) :
    Option Counter :=
  match alt? with
  | some bank => (t.ladder.checkedEntry slots bank).map (·.confidence)
  | none => t.base.checkedCounter baseIndex

def checkedPredict (t : Tage) (pc : UInt64) (path : PathHistory) (conditional : Bool) :
    Option Prediction := do
  let slots ← t.ladder.checkedSlots pc path
  let (hit?, alt?) ← t.ladder.checkedFindMatches slots
  let baseIndex ← t.base.checkedIndex pc
  let _ ← t.checkedAltCounter slots alt? baseIndex
  let _ ← hit?.mapM (t.ladder.checkedLongest slots (·.isPseudoNew) conditional)
  return t.predict pc path conditional

theorem exists_altCounter {t : Tage} {slots : Array Slot} (hslots : t.ladder.fits slots = true)
    {alt? : Option Nat} (halt : t.ladder.hasBank alt? = true) (baseIndex : Nat) :
    ∃ counter, t.checkedAltCounter slots alt? baseIndex = some counter := by
  cases alt? with
  | none => exact ⟨_, t.base.checkedCounter_eq baseIndex⟩
  | some bank =>
      obtain ⟨e, -, he, -⟩ := exists_entry hslots (of_decide_eq_true halt)
      exact ⟨e.confidence, by rw [checkedAltCounter, he]; rfl⟩

theorem checkedPredict_eq {t : Tage} (hready : t.ladder.Ready) (pc : UInt64) (path : PathHistory)
    (conditional : Bool) :
    t.checkedPredict pc path conditional = some (t.predict pc path conditional) := by
  have hslots := t.ladder.fits_slots pc path
  obtain ⟨hhit, halt⟩ := t.ladder.hasBank_findMatches (t.ladder.slots pc path)
  obtain ⟨counter, hcounter⟩ := exists_altCounter hslots halt (t.base.index pc)
  obtain ⟨longest, hlongest⟩ := hready.exists_longest hslots (·.isPseudoNew) conditional hhit
  rw [checkedPredict, checkedSlots_eq]
  simp only [Option.bind_eq_bind, Option.bind_some, checkedFindMatches_eq hslots,
    t.base.checkedIndex_eq, hcounter, hlongest]
  rfl

/-! ## Commit -/

def checkedModifyLadder (t : Tage) (change : Ladder SignOnly → Option (Ladder SignOnly)) :
    Option Tage :=
  (change t.ladder).map fun ladder => ⟨t.base, ladder⟩

def checkedTrainBase (t : Tage) (index : Nat) (outcome : Direction) : Option Tage :=
  (t.base.checkedTrain index outcome).map fun base => ⟨base, t.ladder⟩

def checkedTrainFallback (t : Tage) (p : Prediction) (outcome : Direction) : Option Tage :=
  match p.alt? with
  | some bank => t.checkedModifyLadder
      (·.checkedModifyEntry p.slots bank (·.stepConfidence outcome.isTaken))
  | none => t.checkedTrainBase p.baseIndex outcome

def checkedTrainUseAlt (t : Tage) (p : Prediction) (outcome : Direction) : Option Tage :=
  match p.hit? with
  | some bank =>
    if p.pseudoNew && p.longestOutcome ≠ p.altOutcome then
      t.checkedModifyLadder (·.checkedTrainUseAlt bank p.conditional (p.altOutcome = outcome))
    else some t
  | none => some t

def checkedAllocate (t : Tage) (p : Prediction) (outcome finalOutcome : Direction)
    (skip : Bool) : Option Tage :=
  if allocates p outcome finalOutcome then
    t.checkedModifyLadder (·.checkedAllocate p.slots p.hit? skip ⟨⟩ (initialConfidence outcome))
  else some t

/-- Train the counter that would have answered, if the entry of the longest match was useless. -/
def checkedTrainUseless (t : Tage) (p : Prediction) (outcome : Direction)
    (e : TaggedEntry SignOnly) : Option Tage :=
  if e.useful.value = 0 then t.checkedTrainFallback p outcome else some t

def checkedTrainUseful (t : Tage) (p : Prediction) (outcome : Direction) (bank : Nat) :
    Option Tage :=
  if p.longestOutcome ≠ p.altOutcome then
    t.checkedModifyLadder
      (·.checkedModifyEntry p.slots bank (·.stepUseful (p.longestOutcome = outcome)))
  else some t

def checkedTrainCounters (t : Tage) (p : Prediction) (outcome : Direction) : Option Tage :=
  match p.hit? with
  | none => t.checkedTrainBase p.baseIndex outcome
  | some bank => do
    let e ← t.ladder.checkedEntry p.slots bank
    let t ← t.checkedModifyLadder
      (·.checkedModifyEntry p.slots bank (·.stepConfidence outcome.isTaken))
    let t ← t.checkedTrainUseless p outcome e
    t.checkedTrainUseful p outcome bank

def checkedCommit (t : Tage) (p : Prediction) (outcome finalOutcome : Direction) (skip : Bool) :
    Option Tage := do
  let t := t.modifyLadder (·.record p.source p.hit? (p.outcome = outcome))
  let t ← t.checkedTrainUseAlt p outcome
  let t ← t.checkedAllocate p outcome finalOutcome skip
  let t ← t.checkedTrainCounters p outcome
  t.checkedModifyLadder checkedTick

theorem checkedModifyLadder_eq {t : Tage} {change : Ladder SignOnly → Option (Ladder SignOnly)}
    {plain : Ladder SignOnly → Ladder SignOnly} (h : change t.ladder = some (plain t.ladder)) :
    t.checkedModifyLadder change = some (t.modifyLadder plain) := by
  rw [checkedModifyLadder, h]
  rfl

theorem checkedTrainBase_eq (t : Tage) (index : Nat) (outcome : Direction) :
    t.checkedTrainBase index outcome = some (t.trainBase index outcome) := by
  rw [checkedTrainBase, t.base.checkedTrain_eq]
  rfl

section Commit

variable {t : Tage} {p : Prediction} {outcome : Direction}

theorem checkedTrainFallback_eq (hfits : t.fits p = true) :
    t.checkedTrainFallback p outcome = some (t.trainFallback p outcome) := by
  simp only [fits, Bool.and_eq_true] at hfits
  obtain ⟨⟨hslots, -⟩, halt⟩ := hfits
  unfold checkedTrainFallback trainFallback
  cases hp : p.alt? with
  | none => exact t.checkedTrainBase_eq p.baseIndex outcome
  | some bank =>
      rw [hp] at halt
      exact checkedModifyLadder_eq (checkedModifyEntry_eq hslots (of_decide_eq_true halt) _)

theorem checkedTrainUseAlt_eq (hfits : t.fits p = true) (hready : t.ladder.Ready) :
    t.checkedTrainUseAlt p outcome = some (t.trainUseAlt p outcome) := by
  simp only [fits, Bool.and_eq_true] at hfits
  obtain ⟨⟨-, hhit⟩, -⟩ := hfits
  unfold checkedTrainUseAlt trainUseAlt
  cases hp : p.hit? with
  | none => rfl
  | some bank =>
      rw [hp] at hhit
      simp only
      split
      · exact checkedModifyLadder_eq (hready.checkedTrainUseAlt_eq (of_decide_eq_true hhit) _ _)
      · rfl

theorem checkedAllocate_eq (hfits : t.fits p = true) (finalOutcome : Direction) (skip : Bool) :
    t.checkedAllocate p outcome finalOutcome skip =
      some (t.allocate p outcome finalOutcome skip) := by
  simp only [fits, Bool.and_eq_true] at hfits
  unfold checkedAllocate allocate
  split
  · exact checkedModifyLadder_eq (Ladder.checkedAllocate_eq hfits.1.1 _ _ _ _)
  · rfl

theorem fits_of_learns {s : Tage} {slots : Array Slot}
    {E : Nat → (TaggedEntry SignOnly → TaggedEntry SignOnly) → Prop}
    (h : Learns slots E s.ladder t.ladder) (hfits : s.fits p = true) : t.fits p = true := by
  rw [← hfits]
  simp only [fits, Ladder.fits, hasBank, h.sizes_eq.2.1]

theorem checkedTrainCounters_eq (hfits : t.fits p = true) :
    t.checkedTrainCounters p outcome = some (t.trainCounters p outcome) := by
  have hparts := hfits
  simp only [fits, Bool.and_eq_true] at hparts
  obtain ⟨⟨hslots, hhit⟩, -⟩ := hparts
  unfold checkedTrainCounters trainCounters
  cases hp : p.hit? with
  | none => exact t.checkedTrainBase_eq p.baseIndex outcome
  | some bank =>
      rw [hp] at hhit
      have hbank : bank < t.ladder.size := of_decide_eq_true hhit
      obtain ⟨e, -, hchecked, hentry, -⟩ := exists_entry hslots hbank
      set trained := t.modifyLadder
        (·.modifyEntry p.slots bank (·.stepConfidence outcome.isTaken)) with htrained
      have hlearns : Learns p.slots (fun _ _ => True) t.ladder trained.ladder :=
        Learns.refl.entry trivial
      have htrain : t.checkedModifyLadder
          (·.checkedModifyEntry p.slots bank (·.stepConfidence outcome.isTaken)) = some trained :=
        checkedModifyLadder_eq (checkedModifyEntry_eq hslots hbank _)
      -- the counter of the alternate is trained or not
      obtain ⟨s, hs, hlearns', huseless⟩ : ∃ s : Tage,
          s = (if e.useful.value = 0 then trained.trainFallback p outcome else trained) ∧
            Learns p.slots (fun _ _ => True) t.ladder s.ladder ∧
              trained.checkedTrainUseless p outcome e = some s := by
        unfold checkedTrainUseless
        split
        · exact ⟨_, rfl, learns_trainFallback hlearns (fun _ _ => trivial) outcome,
            checkedTrainFallback_eq (fits_of_learns hlearns hfits)⟩
        · exact ⟨_, rfl, hlearns, rfl⟩
      simp only [hchecked, hentry, Option.bind_eq_bind, Option.bind_some, htrain, huseless,
        decide_eq_true_eq, ← htrained, ← hs]
      unfold checkedTrainUseful
      split
      · have hslots' := (hlearns'.fits_eq p.slots).trans hslots
        have hbank' : bank < s.ladder.size := hlearns'.sizes_eq.2.1 ▸ hbank
        exact checkedModifyLadder_eq (checkedModifyEntry_eq hslots' hbank' _)
      · rfl

theorem checkedCommit_eq (hfits : t.fits p = true) (hready : t.ladder.Ready)
    (finalOutcome : Direction) (skip : Bool) :
    t.checkedCommit p outcome finalOutcome skip = some (t.commit p outcome finalOutcome skip) := by
  set recorded := t.modifyLadder (·.record p.source p.hit? (p.outcome = outcome)) with hrecorded
  -- each step finds what learning has made of the ladder so far, which keeps the sizes
  have hrecord : Learns p.slots (fun _ _ => True) t.ladder recorded.ladder :=
    Learns.refl.record _ _ _
  have huseAlt := learns_trainUseAlt hrecord outcome
  have hallocate := learns_allocate huseAlt (fun _ _ => trivial) (fun _ _ _ => trivial) outcome
    finalOutcome skip
  have htrain := learns_trainCounters hallocate (fun _ _ => trivial) (fun _ _ => trivial) outcome
  have hfits' := fun {s : Tage} (h : Learns p.slots (fun _ _ => True) t.ladder s.ladder) =>
    fits_of_learns h hfits
  simp only [checkedCommit, ← hrecorded, Option.bind_eq_bind, Option.bind_some,
    checkedTrainUseAlt_eq (hfits' hrecord) (hrecord.ready hready),
    checkedAllocate_eq (hfits' huseAlt), checkedTrainCounters_eq (hfits' hallocate)]
  exact checkedModifyLadder_eq (htrain.ready hready).checkedTick_eq

end Commit

end Tage

end BranchPrediction
