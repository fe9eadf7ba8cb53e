import BranchPrediction.Proofs.Learning.Entries

/-!
# What the entries of ITTAGE believe

The entry of a target table stands for a *belief*: its target, and the confidence in it.  A resolved
branch confirms the belief of the entry that it matched, or it does not; `Belief.resolve` says what
becomes of the belief then.

A commit does that to the entry of its longest match (`Ittage.belief?_learn`), and the other things
that a commit does leave the belief alone: an allocation takes place in the tables past the longest
match, and aging is about usefulness.
-/

namespace BranchPrediction

/-- What an entry of a target table stands for. -/
structure Belief where
  confidence : Counter
  target? : Option UInt64
  deriving DecidableEq, Repr

namespace Belief

/-- The belief after a branch has resolved to a target: confidence goes up if that confirms the
belief; otherwise it goes down, and at zero the belief takes the target. -/
def resolve (confirmed : Bool) (target : UInt64) (b : Belief) : Belief :=
  if confirmed then { b with confidence := b.confidence.increment }
  else
    { confidence := b.confidence.decrement
      target? := if b.confidence.decrement.value = 0 then some target else b.target? }

/-- To be confirmed and not to be confirmed lead to different beliefs. -/
theorem resolve_inj {b : Belief} (hrange : b.confidence.range.min < b.confidence.range.max)
    {confirmed confirmed' : Bool} {target : UInt64} :
    b.resolve confirmed target = b.resolve confirmed' target ↔ confirmed = confirmed' := by
  have hincrement := b.confidence.value_increment
  have hdecrement := b.confidence.value_decrement
  have hmin := b.confidence.min_le
  have hmax := b.confidence.le_max
  have hne : ∀ target, b.resolve true target ≠ b.resolve false target := by
    intro target heq
    have hvalue : b.confidence.increment.value = b.confidence.decrement.value :=
      congrArg (fun b : Belief => b.confidence.value) heq
    omega
  constructor
  · intro heq
    cases confirmed with
    | true =>
        cases confirmed' with
        | true => rfl
        | false => exact absurd heq (hne target)
    | false =>
        cases confirmed' with
        | true => exact absurd heq.symm (hne target)
        | false => rfl
  · rintro rfl
    rfl

end Belief

def TaggedEntry.belief (e : TaggedEntry Target) : Belief :=
  ⟨e.confidence, e.payload.address?⟩

namespace Ladder

/-! ## Entries at the slot of a branch -/

section Entries

variable {P : Type} (l : Ladder P) (slots : Array Slot) (f : TaggedEntry P → TaggedEntry P)

theorem entry?_modifyEntry_self (bank : Nat) :
    entry? (l.modifyEntry slots bank f) slots bank = (l.entry? slots bank).map f := by
  unfold modifyEntry
  cases hslot : slots[bank]? with
  | none =>
      simp only [ entry?, hslot]
      cases l.tables[bank]? with
      | none => rfl
      | some t => rfl
  | some slot =>
      simp only [ entry?, hslot, Array.getElem?_modify, if_true]
      cases l.tables[bank]? with
      | none => rfl
      | some t => simp only [Option.map_some, TaggedTable.entry_modifyEntry, if_true]

theorem entry?_modifyEntry_of_ne {bank bank' : Nat} (hne : bank ≠ bank') (slots' : Array Slot) :
    entry? (l.modifyEntry slots bank f) slots' bank' = l.entry? slots' bank' := by
  unfold modifyEntry
  cases slots[bank]? with
  | none => rfl
  | some slot => simp only [ entry?, Array.getElem?_modify, if_neg hne]

theorem lt_of_mem_candidates {bank hit : Nat} {skip : Bool}
    (hmem : bank ∈ l.candidates (some hit) skip) : hit < bank := by
  simp only [candidates] at hmem
  split at hmem
  · cases hmem
  · next hpast =>
      have hstart := (List.mem_range'_1.1 hmem).1
      split at hstart
      · omega
      · omega

end Entries

/-! ## Beliefs at the slot of a branch -/

variable (l : Ladder Target) (slots : Array Slot)

/-- The belief of the entry that a table has at its slot. -/
def belief? (bank : Nat) : Option Belief :=
  (l.entry? slots bank).map TaggedEntry.belief

theorem belief?_mapFolds (g : FoldedHistory → FoldedHistory) (bank : Nat) :
    (mapFolds g l).belief? slots bank = l.belief? slots bank := by
  rw [belief?, entry?_mapFolds, belief?]

theorem belief?_trainUseful (bank : Nat) (useful : Bool) (bank' : Nat) :
    (l.trainUseful slots bank useful).belief? slots bank' = l.belief? slots bank' := by
  rw [belief?, trainUseful, belief?]
  by_cases hbank : bank = bank'
  · rw [hbank, entry?_modifyEntry_self, Option.map_map]
    rfl
  · rw [ entry?_modifyEntry_of_ne _ _ _ hbank]

theorem belief?_tick (bank : Nat) : l.tick.belief? slots bank = l.belief? slots bank := by
  simp only [tick]
  split
  · change (Ladder.age _).belief? slots bank = _
    rw [belief?, entry?_age, Option.map_map]
    rfl
  · rfl

/-- An allocation among other tables leaves the belief of a table alone. -/
theorem belief?_allocateAmong (confidence : Int) (payload : Target) {bank : Nat} {banks : List Nat}
    (hother : bank ∉ banks) :
    (allocateAmong slots confidence payload banks l).1.belief? slots bank =
      l.belief? slots bank := by
  induction banks generalizing l with
  | nil => rfl
  | cons first rest ih =>
      rw [List.mem_cons, not_or] at hother
      obtain ⟨hfirst, hrest⟩ := hother
      rw [allocateAmong]
      split
      · split
        · rw [belief?, entry?_modifyEntry_of_ne _ _ _ (Ne.symm hfirst), belief?]
        · rw [ih _ hrest, belief?_trainUseful]
      · exact ih _ hrest

theorem belief?_allocate (hit : Nat) (skip : Bool) (payload : Target) (confidence : Int) :
    (l.allocate slots (some hit) skip payload confidence).1.belief? slots hit =
      l.belief? slots hit := by
  have hother : hit ∉ l.candidates (some hit) skip :=
    fun hmem => Nat.lt_irrefl hit (l.lt_of_mem_candidates hmem)
  unfold allocate
  split
  · rfl
  · next first rest hcandidates =>
      rw [hcandidates] at hother
      have hscan := l.belief?_allocateAmong slots confidence payload hother
      split
      · next after received hend =>
          rw [hend] at hscan
          exact hscan
      · next after hend =>
          rw [hend] at hscan
          exact hscan

end Ladder

namespace Ittage

open Ladder

/-! ## Commits -/

theorem belief_weaken (target : UInt64) (e : TaggedEntry Target) :
    (weaken target e).belief = e.belief.resolve false target := by
  unfold weaken
  simp only
  split
  · next hzero => exact congrArg (Belief.mk _) (if_pos hzero).symm
  · next hleft => exact congrArg (Belief.mk _) (if_neg hleft).symm

theorem belief?_trainUseAlt (l : Lookup) (target : UInt64) (ladder : Ladder Target)
    (slots : Array Slot) (bank : Nat) :
    (trainUseAlt l target ladder).belief? slots bank = ladder.belief? slots bank := by
  unfold trainUseAlt
  split
  · rfl
  · split
    · rfl
    · rfl

/-- The longest match is taken to be confirmed by the target that the record remembers. -/
theorem belief?_trainConfidence (l : Lookup) (bank : Nat) (target : UInt64)
    (ladder : Ladder Target) :
    (trainConfidence l bank target ladder).belief? l.slots bank =
      (ladder.belief? l.slots bank).map
        (Belief.resolve (l.longestTarget? = some target) target) := by
  have hweaken : (ladder.modifyEntry l.slots bank (weaken target)).belief? l.slots bank =
      (ladder.belief? l.slots bank).map (Belief.resolve false target) := by
    rw [belief?, entry?_modifyEntry_self, Option.map_map, belief?, Option.map_map]
    exact congrArg (Option.map · _) (funext (belief_weaken target))
  unfold trainConfidence
  by_cases hconfirmed : l.longestTarget? = some target
  · rw [if_pos hconfirmed, belief?, entry?_modifyEntry_self, Option.map_map, belief?,
      Option.map_map, decide_eq_true hconfirmed]
    rfl
  · rw [if_neg hconfirmed, decide_eq_false hconfirmed]
    split
    · exact hweaken
    · exact hweaken

/-- What a commit makes of the belief of its longest match. -/
theorem belief?_learn {r : Record} {bank : Nat} (hhit : r.lookup.hit? = some bank)
    (target : UInt64) (ladder : Ladder Target) :
    (learn r target ladder).belief? r.lookup.slots bank =
      (ladder.belief? r.lookup.slots bank).map
        (Belief.resolve (r.lookup.longestTarget? = some target) target) := by
  have hconfidence : ∀ k : Ladder Target,
      (trainLongest r.lookup target k).belief? r.lookup.slots bank =
        (k.belief? r.lookup.slots bank).map
          (Belief.resolve (r.lookup.longestTarget? = some target) target) := by
    intro k
    unfold trainLongest
    rw [hhit]
    simp only
    split
    · rw [belief?_trainUseful, belief?_trainConfidence]
    · exact belief?_trainConfidence r.lookup bank target k
  have hbefore : (trainUseAlt r.lookup target (ladder.record r.lookup.source r.lookup.hit?
      (r.lookup.target? = some target))).belief? r.lookup.slots bank =
        ladder.belief? r.lookup.slots bank :=
    belief?_trainUseAlt _ _ _ _ _
  simp only [learn]
  rw [belief?_tick, hconfidence]
  split
  · rw [hbefore]
  · rw [hhit, belief?_allocate, ← hhit, hbefore]

end Ittage

end BranchPrediction
