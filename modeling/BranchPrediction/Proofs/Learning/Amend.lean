import BranchPrediction.Proofs.Learning.Beliefs

/-!
# Changes at the slots of a branch, all at once

The steps of a commit that change entries do so at the slots of its branch, each in one table.
`Ladder.amend` changes the entry at the slot in every table, by a function that is told the table
and its slot.  A change of one entry is such a change (`modifyEntry_eq_amend`), one after another
they make a third (`amend_amend`), and two are the same if they agree on the entries that are there
(`amend_congr`).  So what a commit does to the entries, short of aging them, is one function per
table.

What the tables hold afterwards is then at hand: the changed entry at the slot (`entry?_amend`), and
at every other index the entry that was there before (`entryAt?_amend_of_ne`).
-/

namespace BranchPrediction

variable {P : Type}

/-! ## Tables -/

namespace TaggedTable

theorem modifyEntry_congr {t : TaggedTable P} {index : Nat} {f g : TaggedEntry P → TaggedEntry P}
    (h : f (t.entry index) = g (t.entry index)) :
    t.modifyEntry index f = t.modifyEntry index g := by
  have hentries : t.entries.modify (index % t.entries.size) f =
      t.entries.modify (index % t.entries.size) g := by
    apply Array.ext_getElem?
    intro i
    rw [Array.getElem?_modify, Array.getElem?_modify]
    split
    · next heq =>
        rw [← heq, t.getElem?_mod_size, Option.map_some, Option.map_some, h]
    · rfl
  rcases t with ⟨shape, bank, entries, indexFold, tagFold, narrowFold, entries_size⟩
  simp only [modifyEntry, mk.injEq, true_and, and_true]
  exact hentries

theorem modifyEntry_modifyEntry (t : TaggedTable P) (index : Nat)
    (f g : TaggedEntry P → TaggedEntry P) :
    (t.modifyEntry index f).modifyEntry index g = t.modifyEntry index fun e => g (f e) := by
  rcases t with ⟨shape, bank, entries, indexFold, tagFold, narrowFold, entries_size⟩
  simp only [modifyEntry, mk.injEq, true_and, and_true]
  apply Array.ext_getElem?
  intro i
  simp only [Array.getElem?_modify, Array.size_modify]
  split
  · rw [Option.map_map]
    rfl
  · rfl

theorem modifyEntry_eq_self {t : TaggedTable P} {index : Nat} {f : TaggedEntry P → TaggedEntry P}
    (h : f (t.entry index) = t.entry index) : t.modifyEntry index f = t := by
  rw [modifyEntry_congr (g := id) h]
  rcases t with ⟨shape, bank, entries, indexFold, tagFold, narrowFold, entries_size⟩
  simp only [modifyEntry, mk.injEq, true_and, and_true]
  apply Array.ext_getElem?
  intro i
  rw [Array.getElem?_modify, Option.map_id]
  exact ite_self _

end TaggedTable

namespace Ladder

/-! ## Changes of all tables -/

/-- Change the entry that each table has at its slot. -/
def amend (l : Ladder P) (slots : Array Slot)
    (change : Nat → Slot → TaggedEntry P → TaggedEntry P) : Ladder P :=
  { l with
    tables := l.tables.mapIdx fun bank t =>
      match slots[bank]? with
      | some slot => t.modifyEntry slot.index (change bank slot)
      | none => t }

variable (l : Ladder P) (slots : Array Slot)

theorem getElem?_amend (change : Nat → Slot → TaggedEntry P → TaggedEntry P) (bank : Nat) :
    (l.amend slots change).tables[bank]? = l.tables[bank]?.map fun t =>
      match slots[bank]? with
      | some slot => t.modifyEntry slot.index (change bank slot)
      | none => t :=
  Array.getElem?_mapIdx

variable {l slots}

theorem amend_congr {change change' : Nat → Slot → TaggedEntry P → TaggedEntry P}
    (h : ∀ bank slot e, slots[bank]? = some slot → l.entry? slots bank = some e →
      change bank slot e = change' bank slot e) : l.amend slots change = l.amend slots change' := by
  simp only [amend, mk.injEq, true_and, and_true]
  apply Array.ext_getElem?
  intro bank
  rw [Array.getElem?_mapIdx, Array.getElem?_mapIdx]
  cases ht : l.tables[bank]? with
  | none => rfl
  | some t =>
      simp only [Option.map_some, Option.some_inj]
      cases hslot : slots[bank]? with
      | none => rfl
      | some slot =>
          apply TaggedTable.modifyEntry_congr
          exact h bank slot _ hslot (by rw [ entry?, ht, hslot])

theorem amend_eq_self {change : Nat → Slot → TaggedEntry P → TaggedEntry P}
    (h : ∀ bank slot e, slots[bank]? = some slot → l.entry? slots bank = some e →
      change bank slot e = e) : l.amend slots change = l := by
  have hsame : l.amend slots change = l.amend slots fun _ _ e => e := amend_congr h
  rw [hsame]
  rcases l with ⟨config, tables, useAlt, stats⟩
  simp only [amend, mk.injEq, true_and, and_true]
  apply Array.ext_getElem?
  intro bank
  rw [Array.getElem?_mapIdx]
  cases tables[bank]? with
  | none => rfl
  | some t =>
      simp only [Option.map_some, Option.some_inj]
      cases slots[bank]? with
      | none => rfl
      | some slot => exact TaggedTable.modifyEntry_eq_self rfl

variable (l slots)

theorem amend_amend (change change' : Nat → Slot → TaggedEntry P → TaggedEntry P) :
    (l.amend slots change).amend slots change' =
      l.amend slots fun bank slot e => change' bank slot (change bank slot e) := by
  simp only [amend, mk.injEq, true_and, and_true]
  apply Array.ext_getElem?
  intro bank
  simp only [Array.getElem?_mapIdx]
  cases l.tables[bank]? with
  | none => rfl
  | some t =>
      simp only [Option.map_some, Option.some_inj]
      cases slots[bank]? with
      | none => rfl
      | some slot => exact t.modifyEntry_modifyEntry slot.index _ _

theorem amend_modifyStats (change : Nat → Slot → TaggedEntry P → TaggedEntry P)
    (f : LadderStats → LadderStats) :
    (l.modifyStats f).amend slots change = (l.amend slots change).modifyStats f :=
  rfl

theorem modifyEntry_eq_amend (bank : Nat) (f : TaggedEntry P → TaggedEntry P) :
    l.modifyEntry slots bank f =
      l.amend slots fun bank' _ e => if bank' = bank then f e else e := by
  have htables : ∀ bank' : Nat, (l.modifyEntry slots bank f).tables[bank']? =
      (l.amend slots fun bank' _ e => if bank' = bank then f e else e).tables[bank']? := by
    intro bank'
    rw [getElem?_amend]
    unfold modifyEntry
    by_cases hbank : bank' = bank
    · subst hbank
      simp only [if_true]
      cases slots[bank']? with
      | none => exact (congrFun Option.map_id _).symm
      | some slot => simp only [Array.getElem?_modify, if_true]
    · have hsame : ∀ t : TaggedTable P, (match slots[bank']? with
          | some slot => t.modifyEntry slot.index fun e => if bank' = bank then f e else e
          | none => t) = t := by
        intro t
        cases slots[bank']? with
        | none => rfl
        | some slot => exact TaggedTable.modifyEntry_eq_self (if_neg hbank)
      simp only [hsame, Option.map_id']
      split
      · rfl
      · simp only [Array.getElem?_modify, if_neg (Ne.symm hbank)]
  have hrest : (l.modifyEntry slots bank f).config = l.config ∧
      (l.modifyEntry slots bank f).useAlt = l.useAlt ∧
      (l.modifyEntry slots bank f).stats = l.stats := by
    unfold modifyEntry
    split
    · exact ⟨rfl, rfl, rfl⟩
    · exact ⟨rfl, rfl, rfl⟩
  obtain ⟨hconfig, huseAlt, hstats⟩ := hrest
  exact (mk.injEq ..).mpr ⟨hconfig, Array.ext_getElem? htables, huseAlt, hstats⟩

/-! ## What the tables hold afterwards -/

def entryAt? (bank index : Nat) : Option (TaggedEntry P) :=
  l.tables[bank]?.bind (·.entries[index]?)

variable {l slots}

/-- What a table has at its slot after a change. -/
theorem entry?_amend {bank : Nat} {slot : Slot} (hslot : slots[bank]? = some slot)
    (change : Nat → Slot → TaggedEntry P → TaggedEntry P) :
    entry? (l.amend slots change) slots bank = (l.entry? slots bank).map (change bank slot) := by
  simp only [ entry?, getElem?_amend, hslot]
  cases l.tables[bank]? with
  | none => rfl
  | some t => simp only [Option.map_some, TaggedTable.entry_modifyEntry, if_true]

/-- What a table has at the index of its slot after a change. -/
theorem entryAt?_amend {bank : Nat} {slot : Slot} (hslot : slots[bank]? = some slot)
    (hindex : ∀ t, l.tables[bank]? = some t → slot.index < t.entries.size)
    (change : Nat → Slot → TaggedEntry P → TaggedEntry P) :
    entryAt? (l.amend slots change) bank slot.index =
      (l.entryAt? bank slot.index).map (change bank slot) := by
  simp only [ entryAt?, getElem?_amend, hslot]
  cases ht : l.tables[bank]? with
  | none => rfl
  | some t =>
      simp only [Option.map_some, Option.bind_some]
      exact (Array.getElem?_modify ..).trans (if_pos (Nat.mod_eq_of_lt (hindex t ht)))

/-- Away from the slots a change leaves everything as it was. -/
theorem entryAt?_amend_of_ne {bank index : Nat}
    (hne : ∀ t slot, l.tables[bank]? = some t → slots[bank]? = some slot →
      slot.index % t.entries.size ≠ index)
    (change : Nat → Slot → TaggedEntry P → TaggedEntry P) :
    entryAt? (l.amend slots change) bank index = l.entryAt? bank index := by
  simp only [ entryAt?, getElem?_amend]
  cases ht : l.tables[bank]? with
  | none => rfl
  | some t =>
      simp only [Option.map_some, Option.bind_some]
      cases hslot : slots[bank]? with
      | none => rfl
      | some slot => exact (Array.getElem?_modify ..).trans (if_neg (hne t slot ht hslot))

end Ladder

end BranchPrediction
