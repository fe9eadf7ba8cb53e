import BranchPrediction.Proofs.Learning.Ittage
import BranchPrediction.Proofs.Learning.Tage

/-!
# The changes that learning is made of

However a commit goes, it changes a ladder by few kinds of small steps: it changes an entry at one
of the slots of the branch, moves a use-alt-on-new counter, halves the usefulness of all entries,
and counts.  `Ladder.Learns slots E` relates a ladder to what such steps make of it, where `E` says
which changes of an entry occur in which table.  A commit is taken apart once (`Tage.learns_commit`,
`Ittage.learns_learn`), and what each step keeps is then kept by learning as a whole.
-/

namespace BranchPrediction

variable {P : Type}

namespace Ladder

/-- The ladders that learning at the slots of a branch leads to, by changes of entries that satisfy
`E` in their table. -/
inductive Learns (slots : Array Slot) (E : Nat → (TaggedEntry P → TaggedEntry P) → Prop)
    (l : Ladder P) : Ladder P → Prop
  | refl : Learns slots E l l
  | entry {k : Ladder P} (h : Learns slots E l k) {bank : Nat}
      {f : TaggedEntry P → TaggedEntry P} (hf : E bank f) :
      Learns slots E l (k.modifyEntry slots bank f)
  | useAlt {k : Ladder P} (h : Learns slots E l k) (bank : Nat) (conditional altCorrect : Bool) :
      Learns slots E l (k.trainUseAlt bank conditional altCorrect)
  | age {k : Ladder P} (h : Learns slots E l k) : Learns slots E l k.age
  | stats {k : Ladder P} (h : Learns slots E l k) (f : LadderStats → LadderStats) :
      Learns slots E l (k.modifyStats f)

namespace Learns

variable {slots : Array Slot} {E : Nat → (TaggedEntry P → TaggedEntry P) → Prop} {l k : Ladder P}

theorem record (h : Learns slots E l k) (source : ProviderSource) (hit? : Option Nat)
    (isCorrect : Bool) : Learns slots E l (k.record source hit? isCorrect) :=
  h.stats _

theorem tick (h : Learns slots E l k) : Learns slots E l k.tick := by
  simp only [Ladder.tick]
  split
  · exact ((h.stats _).age).stats _
  · exact h.stats _

variable {confidence : Int} {payload : P} (huseful : ∀ bank up, E bank (·.stepUseful up))
  (hallocate : ∀ bank tag, E bank (·.allocate tag confidence payload))

include huseful hallocate

theorem allocateAmong (h : Learns slots E l k) (banks : List Nat) :
    Learns slots E l (Ladder.allocateAmong slots confidence payload banks k).1 := by
  induction banks generalizing k with
  | nil => exact h
  | cons bank rest ih =>
      rw [Ladder.allocateAmong]
      split
      · split
        · exact h.entry (hallocate bank _)
        · exact ih (h.entry (huseful bank false))
      · exact ih h

theorem allocate (h : Learns slots E l k) (hit? : Option Nat) (skip : Bool) :
    Learns slots E l (k.allocate slots hit? skip payload confidence).1 := by
  unfold Ladder.allocate
  split
  · exact h
  · next bank rest _ =>
      have hscan := allocateAmong huseful hallocate h (bank :: rest)
      split
      · next after received hend =>
          have hafter : Learns slots E l after := by simpa only [hend] using hscan
          exact hafter.stats fun s => { s with allocations := s.allocations + 1 }
      · next after hend =>
          have hafter : Learns slots E l after := by simpa only [hend] using hscan
          exact hafter.stats fun s => { s with failedAllocations := s.failedAllocations + 1 }

end Learns

end Ladder

/-! ## TAGE -/

namespace Tage

open Ladder

section Commit

variable {p : Prediction} {E : Nat → (TaggedEntry SignOnly → TaggedEntry SignOnly) → Prop}
  {l : Ladder SignOnly} {t : Tage} (h : Learns p.slots E l t.ladder)

include h

theorem learns_trainUseAlt (outcome : Direction) :
    Learns p.slots E l (t.trainUseAlt p outcome).ladder := by
  unfold trainUseAlt
  split
  · split
    · exact h.useAlt _ _ _
    · exact h
  · exact h

theorem learns_allocate (huseful : ∀ bank up, E bank (·.stepUseful up))
    (hallocate : ∀ bank tag confidence, E bank (·.allocate tag confidence ⟨⟩))
    (outcome finalOutcome : Direction) (skip : Bool) :
    Learns p.slots E l (t.allocate p outcome finalOutcome skip).ladder := by
  unfold allocate
  split
  · exact h.allocate huseful (fun bank tag => hallocate bank tag _) p.hit? skip
  · exact h

theorem learns_trainFallback (hconfidence : ∀ bank up, E bank (·.stepConfidence up))
    (outcome : Direction) : Learns p.slots E l (t.trainFallback p outcome).ladder := by
  unfold trainFallback
  split
  · exact h.entry (hconfidence _ _)
  · exact h

theorem learns_trainCounters (hconfidence : ∀ bank up, E bank (·.stepConfidence up))
    (huseful : ∀ bank up, E bank (·.stepUseful up)) (outcome : Direction) :
    Learns p.slots E l (t.trainCounters p outcome).ladder := by
  unfold trainCounters
  split
  · exact h
  · next bank _ =>
      set trained := t.modifyLadder
        (·.modifyEntry p.slots bank (·.stepConfidence outcome.isTaken))
      have htrained : Learns p.slots E l trained.ladder := h.entry (hconfidence bank _)
      -- the fallback is trained or not; either way the usefulness comes next
      have hfallback : ∀ (useless : Prop) [Decidable useless], Learns p.slots E l
          (if useless then trained.trainFallback p outcome else trained).ladder := by
        intro useless _
        split
        · exact learns_trainFallback htrained hconfidence outcome
        · exact htrained
      simp only
      split
      · exact (hfallback _).entry (huseful bank _)
      · exact hfallback _

end Commit

/-- A commit changes entries by training them and by allocating. -/
theorem learns_commit {E : Nat → (TaggedEntry SignOnly → TaggedEntry SignOnly) → Prop}
    (hconfidence : ∀ bank up, E bank (·.stepConfidence up))
    (huseful : ∀ bank up, E bank (·.stepUseful up))
    (hallocate : ∀ bank tag confidence, E bank (·.allocate tag confidence ⟨⟩)) (t : Tage)
    (p : Prediction) (outcome finalOutcome : Direction) (skip : Bool) :
    Learns p.slots E t.ladder (t.commit p outcome finalOutcome skip).ladder := by
  have hrecord : Learns p.slots E t.ladder
      (t.modifyLadder (·.record p.source p.hit? (p.outcome = outcome))).ladder :=
    Learns.refl.record _ _ _
  have huseAlt := learns_trainUseAlt hrecord outcome
  have halloc := learns_allocate huseAlt huseful hallocate outcome finalOutcome skip
  exact (learns_trainCounters halloc hconfidence huseful outcome).tick

theorem base_trainUseAlt (t : Tage) (p : Prediction) (outcome : Direction) :
    (t.trainUseAlt p outcome).base = t.base := by
  unfold trainUseAlt
  split
  · split
    · rfl
    · rfl
  · rfl

theorem base_allocate (t : Tage) (p : Prediction) (outcome finalOutcome : Direction)
    (skip : Bool) : (t.allocate p outcome finalOutcome skip).base = t.base := by
  unfold allocate
  split
  · rfl
  · rfl

theorem base_trainCounters (t : Tage) (p : Prediction) (outcome : Direction) :
    (t.trainCounters p outcome).base = t.base ∨
      (t.trainCounters p outcome).base = t.base.train p.baseIndex outcome := by
  unfold trainCounters
  split
  · exact .inr rfl
  · next bank _ =>
      set trained := t.modifyLadder
        (·.modifyEntry p.slots bank (·.stepConfidence outcome.isTaken))
      have hfallback : ∀ (useless : Prop) [Decidable useless],
          (if useless then trained.trainFallback p outcome else trained).base = t.base ∨
            (if useless then trained.trainFallback p outcome else trained).base =
              t.base.train p.baseIndex outcome := by
        intro useless _
        split
        · unfold trainFallback
          split
          · exact .inl rfl
          · exact .inr rfl
        · exact .inl rfl
      simp only
      split
      · exact hfallback _
      · exact hfallback _

/-- A commit trains at most one counter of the base table. -/
theorem base_commit (t : Tage) (p : Prediction) (outcome finalOutcome : Direction)
    (skip : Bool) :
    (t.commit p outcome finalOutcome skip).base = t.base ∨
      (t.commit p outcome finalOutcome skip).base = t.base.train p.baseIndex outcome := by
  have hcounters := base_trainCounters
    (((t.modifyLadder (·.record p.source p.hit? (p.outcome = outcome))).trainUseAlt p
      outcome).allocate p outcome finalOutcome skip) p outcome
  rw [base_allocate, base_trainUseAlt] at hcounters
  exact hcounters

end Tage

/-! ## ITTAGE -/

namespace Ittage

open Ladder

section Commit

variable {lookup : Lookup} {E : Nat → (TaggedEntry Target → TaggedEntry Target) → Prop}
  {l ladder : Ladder Target} (h : Learns lookup.slots E l ladder)

include h

theorem learns_trainUseAlt (target : UInt64) :
    Learns lookup.slots E l (trainUseAlt lookup target ladder) := by
  unfold trainUseAlt
  split
  · exact h
  · split
    · exact h.useAlt _ _ _
    · exact h

theorem learns_trainConfidence {target : UInt64} {bank : Nat}
    (hconfidence : ∀ up, E bank (·.stepConfidence up)) (hweaken : E bank (weaken target)) :
    Learns lookup.slots E l (trainConfidence lookup bank target ladder) := by
  unfold trainConfidence
  split
  · exact h.entry (hconfidence true)
  · split
    · exact (h.entry hweaken).stats _
    · exact h.entry hweaken

theorem learns_trainLongest {target : UInt64}
    (hconfidence : ∀ bank up, E bank (·.stepConfidence up))
    (huseful : ∀ bank up, E bank (·.stepUseful up))
    (hweaken : ∀ bank, lookup.hit? = some bank → E bank (weaken target)) :
    Learns lookup.slots E l (trainLongest lookup target ladder) := by
  unfold trainLongest
  split
  · exact h
  · next bank hhit =>
      have hconfident := learns_trainConfidence h (hconfidence bank) (hweaken bank hhit)
      simp only
      split
      · exact hconfident.entry (huseful bank _)
      · exact hconfident

end Commit

/-- A commit changes entries by training them, by weakening the longest match toward the target,
and by allocating for the target. -/
theorem learns_learn {E : Nat → (TaggedEntry Target → TaggedEntry Target) → Prop} {r : Record}
    {target : UInt64} (hconfidence : ∀ bank up, E bank (·.stepConfidence up))
    (huseful : ∀ bank up, E bank (·.stepUseful up))
    (hweaken : ∀ bank, r.lookup.hit? = some bank → E bank (weaken target))
    (hallocate : ∀ bank tag, E bank (·.allocate tag 0 ⟨some target⟩)) (ladder : Ladder Target) :
    Learns r.lookup.slots E ladder (learn r target ladder) := by
  have hrecord : Learns r.lookup.slots E ladder (ladder.record r.lookup.source r.lookup.hit?
      (r.lookup.target? = some target)) :=
    Learns.refl.record _ _ _
  have huseAlt := learns_trainUseAlt hrecord target
  refine (learns_trainLongest ?_ hconfidence huseful hweaken).tick
  split
  · exact huseAlt
  · exact huseAlt.allocate huseful hallocate _ _

end Ittage

end BranchPrediction
