import BranchPrediction.Proofs.Learning.Amend
import BranchPrediction.Proofs.Safety.Access
import Mathlib.Data.List.TakeWhile

/-!
# Allocations

An allocation visits its candidates in order until it finds one that is free.  That one receives the
new entry, and those before it lose usefulness; if none is free, all candidates do.  Here this is
said without the scan: `Ladder.recipient?` is the first free candidate, `Ladder.passed` lists the
candidates before it, and an allocation amends the entries at the slots accordingly and counts
(`allocate_eq`).

An allocation is tried exactly if there is a table past the longest match (`candidates_ne_nil_iff`),
and the recipient is such a table (`recipient?_spec`).
-/

namespace BranchPrediction

variable {P : Type}

/-- Count an allocation, if it was tried at all. -/
def LadderStats.countAllocation (tried received : Bool) (s : LadderStats) : LadderStats :=
  { s with
    allocations := s.allocations + (tried && received).toNat
    failedAllocations := s.failedAllocations + (tried && !received).toNat }

theorem LadderStats.record_counts (s : LadderStats) (source : ProviderSource) (hit? : Option Nat)
    (isCorrect : Bool) :
    (s.record source hit? isCorrect).commits = s.commits ∧
      (s.record source hit? isCorrect).allocations = s.allocations ∧
      (s.record source hit? isCorrect).failedAllocations = s.failedAllocations := by
  cases isCorrect with
  | true => exact ⟨rfl, rfl, rfl⟩
  | false => exact ⟨rfl, rfl, rfl⟩

namespace Ladder

/-- The first table past the longest match. -/
def past (hit? : Option Nat) : Nat :=
  hit?.elim 0 (· + 1)

theorem past_le_iff {hit? : Option Nat} {bank : Nat} :
    past hit? ≤ bank ↔ ∀ hit, hit? = some hit → hit < bank := by
  cases hit? with
  | none => simp [past]
  | some hit =>
      simp only [past, Option.elim_some, Option.some.injEq, forall_eq']
      exact Nat.succ_le_iff

theorem candidates_eq (l : Ladder P) (hit? : Option Nat) (skip : Bool) :
    l.candidates hit? skip =
      if l.size ≤ past hit? then []
      else
        let start := if skip then min (past hit? + 1) (l.size - 1) else past hit?
        List.range' start (min l.config.maxAllocationScan (l.size - start)) := by
  cases hit? with
  | none => rfl
  | some hit => rfl

section Scan

variable (l : Ladder P) (slots : Array Slot)

/-- The table has an entry of no usefulness at its slot. -/
def isFree (bank : Nat) : Bool :=
  (l.entry? slots bank).any (·.useful.value = 0)

/-- The table that an allocation gives a new entry: the first candidate that is free. -/
def recipient? (hit? : Option Nat) (skip : Bool) : Option Nat :=
  (l.candidates hit? skip).find? (l.isFree slots)

/-- The tables that an allocation passes over. -/
def passed (hit? : Option Nat) (skip : Bool) : List Nat :=
  (l.candidates hit? skip).takeWhile fun bank => !l.isFree slots bank

/-- What an allocation makes of the entry that a table has at its slot. -/
def grant (confidence : Int) (payload : P) (received? : Option Nat) (passed : List Nat) (bank : Nat)
    (slot : Slot) (e : TaggedEntry P) : TaggedEntry P :=
  if received? = some bank then e.allocate slot.tag confidence payload
  else if bank ∈ passed then e.stepUseful false
  else e

variable {l slots}

theorem isFree_iff {bank : Nat} :
    l.isFree slots bank = true ↔ ∃ e, l.entry? slots bank = some e ∧ e.useful.value = 0 := by
  simp only [isFree, Option.any_eq_true, decide_eq_true_iff]

theorem exists_slot_of_entry {bank : Nat} {e : TaggedEntry P}
    (he : l.entry? slots bank = some e) : ∃ slot, slots[bank]? = some slot := by
  unfold entry? at he
  split at he
  · next slot _ hslot => exact ⟨slot, hslot⟩
  · cases he

theorem lt_size_of_entry {bank : Nat} {e : TaggedEntry P}
    (he : l.entry? slots bank = some e) : bank < l.size := by
  unfold entry? at he
  split at he
  · next ht _ => exact (Array.getElem?_eq_some_iff.1 ht).1
  · cases he

theorem isFree_trainUseful_of_ne {bank bank' : Nat} (hne : bank ≠ bank') (useful : Bool) :
    (l.trainUseful slots bank useful).isFree slots bank' = l.isFree slots bank' := by
  rw [isFree, trainUseful, entry?_modifyEntry_of_ne l slots _ hne, isFree]

/-- A scan gives an entry to the first free table, and takes usefulness from those before it.  Which
tables are free is fixed beforehand, since the scan does not visit a table twice. -/
theorem allocateAmong_eq (confidence : Int) (payload : P) {free : Nat → Bool} {banks : List Nat}
    (hbanks : banks.Nodup) (hfree : ∀ bank ∈ banks, l.isFree slots bank = free bank) :
    allocateAmong slots confidence payload banks l =
      (l.amend slots (grant confidence payload (banks.find? free)
        (banks.takeWhile fun bank => !free bank)), banks.find? free) := by
  induction banks generalizing l with
  | nil => exact Prod.ext (amend_eq_self fun _ _ _ _ _ => rfl).symm rfl
  | cons bank rest ih =>
      obtain ⟨hbank, hnodup⟩ := List.nodup_cons.1 hbanks
      obtain ⟨hfirst, hrest⟩ := List.forall_mem_cons.1 hfree
      have hfound : rest.find? free ≠ some bank := fun h => hbank (List.mem_of_find?_eq_some h)
      have hpassed : bank ∉ rest.takeWhile fun bank => !free bank :=
        fun h => hbank (List.takeWhile_subset _ h)
      rw [allocateAmong]
      cases hb : free bank with
      | true =>
          obtain ⟨e, he, hzero⟩ := isFree_iff.1 (hfirst.trans hb)
          obtain ⟨slot, hslot⟩ := exists_slot_of_entry he
          rw [List.find?_cons_of_pos hb, List.takeWhile_cons_of_neg (by simp [hb]), he, hslot]
          simp only [hzero, if_true, modifyEntry_eq_amend]
          refine Prod.ext (amend_congr fun bank' slot' e' hslot' _ => ?_) rfl
          by_cases hsame : bank' = bank
          · subst hsame
            obtain rfl := Option.some.inj (hslot.symm.trans hslot')
            simp [grant]
          · simp [grant, hsame, Ne.symm hsame]
      | false =>
          rw [List.find?_cons_of_neg (by simp [hb]), List.takeWhile_cons_of_pos (by simp [hb])]
          split
          · next e slot he hslot =>
              have hpositive : e.useful.value ≠ 0 := fun hzero =>
                Bool.false_ne_true ((hb.symm.trans hfirst.symm).trans (isFree_iff.2 ⟨e, he, hzero⟩))
              -- the table passed over is not visited again
              have hothers : ∀ bank' ∈ rest,
                  (l.trainUseful slots bank false).isFree slots bank' = free bank' := by
                intro bank' hmem
                have hne : bank ≠ bank' := by
                  rintro rfl
                  exact hbank hmem
                rw [isFree_trainUseful_of_ne hne, hrest bank' hmem]
              rw [if_neg hpositive, ih hnodup hothers, trainUseful, modifyEntry_eq_amend,
                amend_amend]
              refine Prod.ext (amend_congr fun bank' slot' e' _ _ => ?_) rfl
              by_cases hsame : bank' = bank
              · subst hsame
                simp [grant, hfound, hpassed]
              · simp [grant, hsame]
          · next hnone =>
              -- a table without an entry has nothing to lose
              rw [ih hnodup hrest]
              refine Prod.ext (amend_congr fun bank' slot' e' hslot' he' => ?_) rfl
              have hsame : bank' ≠ bank := by
                rintro rfl
                exact hnone e' slot' he' hslot'
              simp [grant, hsame]

variable (l slots)

theorem nodup_candidates (hit? : Option Nat) (skip : Bool) : (l.candidates hit? skip).Nodup := by
  rw [candidates_eq]
  split
  · exact List.nodup_nil
  · exact List.nodup_range'

/-- An allocation gives an entry to its recipient, takes usefulness from the tables that it passes
over, and counts if there was a table to try. -/
theorem allocate_eq (hit? : Option Nat) (skip : Bool) (payload : P) (confidence : Int) :
    l.allocate slots hit? skip payload confidence =
      ((l.amend slots (grant confidence payload (l.recipient? slots hit? skip)
          (l.passed slots hit? skip))).modifyStats
        (.countAllocation (l.candidates hit? skip ≠ []) (l.recipient? slots hit? skip).isSome),
      l.recipient? slots hit? skip) := by
  have hscan : allocateAmong slots confidence payload (l.candidates hit? skip) l =
      (l.amend slots (grant confidence payload (l.recipient? slots hit? skip)
        (l.passed slots hit? skip)), l.recipient? slots hit? skip) :=
    allocateAmong_eq confidence payload (l.nodup_candidates hit? skip) fun _ _ => rfl
  unfold recipient? passed at hscan
  unfold allocate recipient? passed
  split
  · next hnone =>
      rw [hnone] at hscan
      simp only [hnone]
      exact Prod.ext (congrArg Prod.fst hscan) rfl
  · next first rest hsome =>
      rw [hsome] at hscan
      rw [hsome, hscan]
      cases (first :: rest).find? (l.isFree slots) with
      | none => rfl
      | some received => rfl

end Scan

/-! ## Candidates -/

section Candidates

variable {l : Ladder P} {slots : Array Slot} {hit? : Option Nat} {skip : Bool}

/-- An allocation is tried if and only if there is a table past the longest match. -/
theorem candidates_ne_nil_iff (hscan : 0 < l.config.maxAllocationScan) :
    l.candidates hit? skip ≠ [] ↔ ∃ bank < l.size, ∀ hit, hit? = some hit → hit < bank := by
  simp only [← past_le_iff]
  rw [candidates_eq]
  split
  · next hnone =>
      refine iff_of_false (fun h => h rfl) ?_
      rintro ⟨bank, hbank, hpast⟩
      omega
  · next hsome =>
      refine iff_of_true ?_ ⟨past hit?, by omega, Nat.le_refl _⟩
      rw [ne_eq, List.range'_eq_nil_iff]
      split <;> omega

theorem past_le_of_mem_candidates {bank : Nat} (hmem : bank ∈ l.candidates hit? skip) :
    past hit? ≤ bank := by
  rw [past_le_iff]
  rintro hit rfl
  exact l.lt_of_mem_candidates hmem

theorem recipient?_spec {bank : Nat} (hrecipient : l.recipient? slots hit? skip = some bank) :
    bank < l.size ∧ past hit? ≤ bank ∧ ∃ e, l.entry? slots bank = some e ∧ e.useful.value = 0 := by
  have hmem := List.mem_of_find?_eq_some hrecipient
  exact ⟨l.candidates_lt hit? skip bank hmem, past_le_of_mem_candidates hmem,
    isFree_iff.1 (List.find?_some hrecipient)⟩

theorem past_le_of_mem_passed {bank : Nat} (hmem : bank ∈ l.passed slots hit? skip) :
    past hit? ≤ bank :=
  past_le_of_mem_candidates (List.takeWhile_subset _ hmem)

/-- Without a recipient an allocation passes over all candidates. -/
theorem passed_of_recipient?_eq_none (hrecipient : l.recipient? slots hit? skip = none) :
    l.passed slots hit? skip = l.candidates hit? skip := by
  rw [passed, List.takeWhile_eq_self_iff]
  intro bank hmem
  rw [Bool.not_eq_true', ← Bool.not_eq_true]
  exact List.find?_eq_none.1 hrecipient bank hmem

/-- An allocation leaves the tables alone that are not past the longest match. -/
theorem grant_of_lt_past {bank : Nat} (hbank : bank < past hit?) (confidence : Int) (payload : P)
    (slot : Slot) (e : TaggedEntry P) :
    grant confidence payload (l.recipient? slots hit? skip) (l.passed slots hit? skip) bank slot e =
      e := by
  have hrecipient : l.recipient? slots hit? skip ≠ some bank := by
    intro h
    obtain ⟨-, hpast, -⟩ := recipient?_spec h
    omega
  have hpassed : bank ∉ l.passed slots hit? skip := by
    intro h
    have := past_le_of_mem_passed h
    omega
  rw [grant, if_neg hrecipient, if_neg hpassed]

/-- An allocation leaves the entry of the longest match as it was. -/
theorem entry?_allocate_hit (hit : Nat) (payload : P) (confidence : Int) :
    entry? (l.allocate slots (some hit) skip payload confidence).1 slots hit =
      l.entry? slots hit := by
  rw [allocate_eq]
  change entry? (l.amend slots _) slots hit = _
  cases hslot : slots[hit]? with
  | none => simp [ entry?, hslot]
  | some slot =>
      rw [ entry?_amend hslot]
      cases l.entry? slots hit with
      | none => rfl
      | some e => exact congrArg some (grant_of_lt_past (Nat.lt_succ_self hit) _ _ _ e)

end Candidates

end Ladder

end BranchPrediction
