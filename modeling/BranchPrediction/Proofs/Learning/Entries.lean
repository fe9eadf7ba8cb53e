import BranchPrediction.Proofs.Learning.Changes

/-!
# The entries of a ladder

What holds of every entry of a ladder (`Ladder.Entrywise`), and of the entry that a table has at a
slot (`Ladder.HoldsAt`), is kept by a change of an entry if the change keeps it, and is not touched
by a change of the folds.  The matches of a search are the tables whose entries answer for their
slots, from the longest history down.
-/

namespace BranchPrediction

/-- A change of one element keeps what holds of all elements if it keeps it of the one. -/
theorem forall_mem_modify {α : Type} {I : α → Prop} {xs : Array α} (h : ∀ x ∈ xs, I x)
    {index : Nat} {f : α → α} (hf : ∀ x, xs[index]? = some x → I (f x)) :
    ∀ x ∈ xs.modify index f, I x := by
  intro x hx
  obtain ⟨i, hi⟩ := Array.mem_iff_getElem?.1 hx
  rw [Array.getElem?_modify] at hi
  split at hi
  · next heq =>
      obtain ⟨y, hy, rfl⟩ := Option.map_eq_some_iff.1 hi
      exact hf y (heq ▸ hy)
  · exact h x (Array.mem_iff_getElem?.2 ⟨i, hi⟩)

variable {P : Type}

/-! ## Tables -/

namespace TaggedTable

theorem entry_mem (t : TaggedTable P) (index : Nat) : t.entry index ∈ t.entries :=
  Array.getElem_mem _

theorem getElem?_mod_size (t : TaggedTable P) (index : Nat) :
    t.entries[index % t.entries.size]? = some (t.entry index) :=
  Array.getElem?_eq_getElem (Nat.mod_lt index t.size_pos)

theorem entry_modifyEntry (t : TaggedTable P) (index : Nat) (f : TaggedEntry P → TaggedEntry P)
    (at' : Nat) : (t.modifyEntry index f).entry at' =
      if index % t.entries.size = at' % t.entries.size then f (t.entry at') else t.entry at' := by
  rcases t with ⟨shape, bank, entries, indexFold, tagFold, narrowFold, entries_size⟩
  simp only [modifyEntry, entry, Array.size_modify, Array.getElem_modify]

end TaggedTable

namespace Ladder

/-! ## One entry -/

/-- The entry that a table has at its slot satisfies `I`, if there are such a table and slot. -/
def HoldsAt (I : TaggedEntry P → Prop) (l : Ladder P) (slots : Array Slot) (bank : Nat) : Prop :=
  ∀ e, l.entry? slots bank = some e → I e

/-- A change of an entry changes what is found at a slot by the same function, or not at all. -/
theorem entry?_modifyEntry (l : Ladder P) (slots : Array Slot) (bank : Nat)
    (f : TaggedEntry P → TaggedEntry P) (slots' : Array Slot) (bank' : Nat) :
    entry? (l.modifyEntry slots bank f) slots' bank' = l.entry? slots' bank' ∨
      entry? (l.modifyEntry slots bank f) slots' bank' = (l.entry? slots' bank').map f := by
  unfold modifyEntry
  split
  · exact .inl rfl
  · next slot _ =>
      simp only [ entry?, Array.getElem?_modify]
      by_cases hbank : bank = bank'
      · rw [if_pos hbank]
        cases l.tables[bank']? with
        | none => exact .inl rfl
        | some t =>
            cases slots'[bank']? with
            | none => exact .inl rfl
            | some slot' =>
                simp only [Option.map_some, TaggedTable.entry_modifyEntry]
                split
                · exact .inr rfl
                · exact .inl rfl
      · rw [if_neg hbank]
        exact .inl rfl

theorem entry?_age (l : Ladder P) (slots : Array Slot) (bank : Nat) :
    l.age.entry? slots bank = (l.entry? slots bank).map TaggedEntry.age := by
  simp only [age, entry?, Array.getElem?_map]
  cases l.tables[bank]? with
  | none => rfl
  | some t =>
      cases slots[bank]? with
      | none => rfl
      | some slot => simp [TaggedTable.age, TaggedTable.mapEntries, TaggedTable.entry]

namespace HoldsAt

variable {I : TaggedEntry P → Prop} {l : Ladder P} {slots : Array Slot} {bank : Nat}

theorem modifyEntry (h : l.HoldsAt I slots bank) {f : TaggedEntry P → TaggedEntry P}
    (hf : ∀ e, I e → I (f e)) (slots' : Array Slot) (bank' : Nat) :
    (l.modifyEntry slots' bank' f).HoldsAt I slots bank := by
  intro e he
  rcases l.entry?_modifyEntry slots' bank' f slots bank with hsame | hchanged
  · exact h e (hsame.symm.trans he)
  · obtain ⟨e', he', rfl⟩ := Option.map_eq_some_iff.1 (hchanged.symm.trans he)
    exact hf e' (h e' he')

theorem age (h : l.HoldsAt I slots bank) (hage : ∀ e, I e → I e.age) :
    l.age.HoldsAt I slots bank := by
  intro e he
  obtain ⟨e', he', rfl⟩ := Option.map_eq_some_iff.1 (( l.entry?_age slots bank).symm.trans he)
  exact hage e' (h e' he')

theorem mapFolds (h : l.HoldsAt I slots bank) (g : FoldedHistory → FoldedHistory) :
    Ladder.HoldsAt I (BranchPrediction.mapFolds g l) slots bank := by
  intro e he
  exact h e (( entry?_mapFolds g l slots bank).symm.trans he)

end HoldsAt

/-- What each change of an entry keeps, learning keeps at every slot. -/
theorem Learns.holdsAt {I : TaggedEntry P → Prop} {slots slots' : Array Slot} {bank' : Nat}
    {E : Nat → (TaggedEntry P → TaggedEntry P) → Prop} {l k : Ladder P} (h : Learns slots E l k)
    (hE : ∀ bank f, E bank f → ∀ e, I e → I (f e)) (hage : ∀ e, I e → I e.age)
    (hl : l.HoldsAt I slots' bank') : k.HoldsAt I slots' bank' := by
  induction h with
  | refl => exact hl
  | entry _ hf ih => exact ih.modifyEntry (hE _ _ hf) slots _
  | useAlt _ bank conditional altCorrect ih => exact ih
  | age _ ih => exact ih.age hage
  | stats _ f ih => exact ih

/-! ## All entries -/

/-- Every entry of every table satisfies `I`. -/
def Entrywise (I : TaggedEntry P → Prop) (l : Ladder P) : Prop :=
  ∀ t ∈ l.tables, ∀ e ∈ t.entries, I e

namespace Entrywise

variable {I : TaggedEntry P → Prop} {l : Ladder P}

theorem holdsAt (h : l.Entrywise I) (slots : Array Slot) (bank : Nat) :
    l.HoldsAt I slots bank := by
  intro e he
  unfold entry? at he
  split at he
  · next t slot ht _ =>
      obtain rfl := Option.some.inj he
      exact h t (Array.mem_of_getElem? ht) _ (t.entry_mem slot.index)
  · cases he

theorem mono (h : l.Entrywise I) {J : TaggedEntry P → Prop} (hIJ : ∀ e, I e → J e) :
    l.Entrywise J :=
  fun t ht e he => hIJ e (h t ht e he)

theorem modifyEntry (h : l.Entrywise I) {slots : Array Slot} {bank : Nat}
    {f : TaggedEntry P → TaggedEntry P} (hf : l.HoldsAt (fun e => I (f e)) slots bank) :
    (l.modifyEntry slots bank f).Entrywise I := by
  unfold Ladder.modifyEntry
  split
  · exact h
  · next slot hslot =>
      change ∀ t ∈ l.tables.modify bank (·.modifyEntry slot.index f), ∀ e ∈ t.entries, I e
      refine forall_mem_modify h fun t ht => ?_
      refine forall_mem_modify (h t (Array.mem_of_getElem? ht)) ?_
      intro e he
      rw [t.getElem?_mod_size] at he
      obtain rfl := Option.some.inj he
      apply hf
      rw [ entry?, ht, hslot]

theorem mapTables {change : TaggedTable P → TaggedTable P} {f : TaggedEntry P → TaggedEntry P}
    (h : l.Entrywise I) (hchange : ∀ t, (change t).entries = t.entries.map f)
    (hf : ∀ e, I e → I (f e)) : ∀ t ∈ l.tables.map change, ∀ e ∈ t.entries, I e := by
  intro changed ht e he
  obtain ⟨t, hmem, rfl⟩ := Array.mem_map.1 ht
  rw [hchange] at he
  obtain ⟨e', he', rfl⟩ := Array.mem_map.1 he
  exact hf e' (h t hmem e' he')

theorem age (h : l.Entrywise I) (hage : ∀ e, I e → I e.age) : l.age.Entrywise I :=
  h.mapTables (fun _ => rfl) hage

theorem mapFolds (h : l.Entrywise I) (g : FoldedHistory → FoldedHistory) :
    Ladder.Entrywise I (BranchPrediction.mapFolds g l) :=
  h.mapTables (fun t => (Array.map_id t.entries).symm) fun _ he => he

end Entrywise

/-- Learning keeps `I` of every entry if each change does.  A change of the entry of the longest
match may rely on `T`, which was found there and which all changes keep. -/
theorem Learns.entrywise {I T : TaggedEntry P → Prop} {slots : Array Slot} {hit? : Option Nat}
    {E : Nat → (TaggedEntry P → TaggedEntry P) → Prop} {l k : Ladder P} (h : Learns slots E l k)
    (hT : ∀ bank f, E bank f → ∀ e, T e → T (f e)) (hageT : ∀ e, T e → T e.age)
    (hI : ∀ bank f, E bank f → ∀ e, (hit? = some bank → T e) → I e → I (f e))
    (hageI : ∀ e, I e → I e.age) (hhit : ∀ bank, hit? = some bank → l.HoldsAt T slots bank)
    (hl : l.Entrywise I) : k.Entrywise I := by
  induction h with
  | refl => exact hl
  | @entry k hk bank f hf ih =>
      refine ih.modifyEntry fun e he => ?_
      apply hI bank f hf e ?_ (ih.holdsAt slots bank e he)
      intro hbank
      exact hk.holdsAt hT hageT (hhit bank hbank) e he
  | useAlt _ bank conditional altCorrect ih => exact ih
  | age _ ih => exact ih.age hageI
  | stats _ f ih => exact ih

theorem entrywise_blank [Payload P] (c : Config) :
    (blank c : Ladder P).Entrywise fun e => ∃ confidence useful,
      e = TaggedEntry.blank confidence useful := by
  intro t ht e he
  obtain ⟨bank, _, rfl⟩ := List.mem_mapIdx.1 (List.mem_toArray.1 ht)
  exact ⟨_, _, (Array.mem_replicate.1 he).2⟩

theorem entrywise_reset [Payload P] (l : Ladder P) :
    l.reset.Entrywise fun e => ∃ e' : TaggedEntry P, e = e'.invalidate := by
  intro t ht e he
  obtain ⟨t, -, rfl⟩ := Array.mem_map.1 ht
  obtain ⟨e', -, rfl⟩ := Array.mem_map.1 he
  exact ⟨e', rfl⟩

/-! ## Matches -/

section Matches

variable (l : Ladder P)

/-- At the slots that a ladder computes, a table is read at the index that it computes. -/
theorem entry?_slots {bank : Nat} {t : TaggedTable P} (ht : l.tables[bank]? = some t) (pc : UInt64)
    (path : PathHistory) :
    l.entry? (l.slots pc path) bank = some (t.entry (t.index pc path)) ∧
      (l.slots pc path)[bank]? = some (t.slot pc path) := by
  have hslot : (l.slots pc path)[bank]? = some (t.slot pc path) := by
    rw [Ladder.slots, Array.getElem?_map, ht, Option.map_some]
  refine ⟨?_, hslot⟩
  rw [ entry?, ht, hslot]
  rfl

variable [Payload P] (slots : Array Slot)

theorem isMatch_eq_true_iff {bank : Nat} :
    l.isMatch slots bank = true ↔
      ∃ e slot, l.entry? slots bank = some e ∧ slots[bank]? = some slot ∧
        e.isMatch slot.tag = true := by
  unfold isMatch entry?
  cases l.tables[bank]? with
  | none => simp
  | some t =>
      cases slots[bank]? with
      | none => simp
      | some slot => simp [TaggedTable.lookup]

theorem mem_hits_iff {bank : Nat} : bank ∈ l.hits slots ↔ l.isMatch slots bank = true := by
  simp only [hits, List.mem_filter, List.mem_reverse, List.mem_range, and_iff_right_iff_imp]
  intro hmatch
  unfold isMatch at hmatch
  split at hmatch
  · next ht _ => exact (Array.getElem?_eq_some_iff.1 ht).1
  · cases hmatch

/-- The matches go from the longest history down. -/
theorem hits_decrease : (l.hits slots).Pairwise (· > ·) := by
  have hrange : (List.range l.size).reverse.Pairwise (· > ·) :=
    List.pairwise_reverse.2 List.pairwise_lt_range
  exact hrange.filter _

/-- The longest match and its alternate are matches, and the alternate has the shorter history;
without a longest match there is none at all. -/
theorem findMatches_cases :
    (l.findMatches slots = (none, none) ∧ ∀ bank, l.isMatch slots bank = false) ∨
      ∃ hit alt?, l.findMatches slots = (some hit, alt?) ∧ l.isMatch slots hit = true ∧
        ∀ alt, alt? = some alt → l.isMatch slots alt = true ∧ alt < hit := by
  have hdecrease := l.hits_decrease slots
  have hmem : ∀ bank, bank ∈ l.hits slots ↔ l.isMatch slots bank = true :=
    fun bank => l.mem_hits_iff slots
  unfold findMatches
  cases hhits : l.hits slots with
  | nil =>
      refine .inl ⟨rfl, fun bank => ?_⟩
      rw [← Bool.not_eq_true, ← hmem bank, hhits]
      exact List.not_mem_nil
  | cons hit rest =>
      rw [hhits] at hdecrease hmem
      have hhit := (hmem hit).1 List.mem_cons_self
      cases rest with
      | nil => exact .inr ⟨hit, none, rfl, hhit, fun alt halt => by cases halt⟩
      | cons alt rest =>
          refine .inr ⟨hit, some alt, rfl, hhit, fun alt' halt => ?_⟩
          obtain rfl := Option.some.inj halt
          exact ⟨(hmem alt).1 (List.mem_cons_of_mem _ List.mem_cons_self),
            List.rel_of_pairwise_cons hdecrease List.mem_cons_self⟩

end Matches

end Ladder

end BranchPrediction
