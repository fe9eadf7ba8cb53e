import BranchPrediction.Proofs.Learning.Matches
import BranchPrediction.Proofs.Safety.Lookups
import Mathlib.Order.Bounds.Basic

/-!
# The longest match and its alternate

A search goes through the tables from the longest history down and stops at the second that
answers.  What it finds does not depend on the order: the longest match is the greatest table that
answers, and the alternate is the greatest one below (`findMatches_fst_eq_some_iff`,
`findMatches_snd_eq_some_iff`).

A table answers for a branch if the entry at the index of the branch carries its tag
(`Ladder.Carries`), as long as each entry that was allocated has something to answer with
(`TaggedEntry.Installed`).
-/

namespace BranchPrediction

/-! ## The first two elements of a list that decreases -/

section Decreasing

variable {xs : List Nat} {x y : Nat}

theorem head_eq_some_iff_isGreatest (hxs : xs.Pairwise (· > ·)) :
    xs[0]? = some x ↔ IsGreatest {y | y ∈ xs} x := by
  cases xs with
  | nil => simp [IsGreatest]
  | cons first rest =>
      have hgreatest : IsGreatest {y | y ∈ first :: rest} first := by
        refine ⟨List.mem_cons_self, fun y hy => ?_⟩
        rcases List.mem_cons.1 hy with rfl | hrest
        · exact le_refl _
        · exact (List.rel_of_pairwise_cons hxs hrest).le
      rw [List.getElem?_cons_zero, Option.some_inj]
      exact ⟨fun h => h ▸ hgreatest, hgreatest.unique⟩

theorem second_eq_some_iff_isGreatest (hxs : xs.Pairwise (· > ·)) (hfirst : xs[0]? = some x) :
    xs[1]? = some y ↔ IsGreatest {z | z ∈ xs ∧ z < x} y := by
  cases xs with
  | nil => cases hfirst
  | cons first rest =>
      obtain rfl : first = x := Option.some.inj hfirst
      have hbelow : {z | z ∈ first :: rest ∧ z < first} = {z | z ∈ rest} := by
        ext z
        constructor
        · rintro ⟨hz, hlt⟩
          exact (List.mem_cons.1 hz).resolve_left hlt.ne
        · exact fun hz => ⟨List.mem_cons_of_mem _ hz, List.rel_of_pairwise_cons hxs hz⟩
      rw [List.getElem?_cons_succ, hbelow]
      exact head_eq_some_iff_isGreatest (List.pairwise_cons.1 hxs).2

end Decreasing

/-! ## Matches -/

variable {P : Type} [Payload P]

namespace Ladder

section Matches

variable (l : Ladder P) (slots : Array Slot)

theorem setOf_isMatch : {bank | bank ∈ l.hits slots} = {bank | l.isMatch slots bank = true} :=
  Set.ext fun _ => l.mem_hits_iff slots

variable {l slots}

/-- The longest match is the greatest table that answers. -/
theorem findMatches_fst_eq_some_iff {hit : Nat} :
    (l.findMatches slots).1 = some hit ↔
      IsGreatest {bank | l.isMatch slots bank = true} hit := by
  rw [findMatches_eq, head_eq_some_iff_isGreatest (l.hits_decrease slots), setOf_isMatch]

/-- The alternate is the greatest table that answers below the longest match. -/
theorem findMatches_snd_eq_some_iff {hit alt : Nat} (hhit : (l.findMatches slots).1 = some hit) :
    (l.findMatches slots).2 = some alt ↔
      IsGreatest {bank | l.isMatch slots bank = true ∧ bank < hit} alt := by
  rw [findMatches_eq] at hhit ⊢
  rw [second_eq_some_iff_isGreatest (l.hits_decrease slots) hhit]
  simp only [mem_hits_iff]

theorem findMatches_fst_eq_none_iff :
    (l.findMatches slots).1 = none ↔ ∀ bank, l.isMatch slots bank = false := by
  constructor
  · intro hnone
    rcases l.findMatches_cases slots with ⟨-, hall⟩ | ⟨hit, alt?, hsome, -⟩
    · exact hall
    · rw [hsome] at hnone
      cases hnone
  · intro hall
    refine Option.eq_none_iff_forall_ne_some.2 fun hit hhit => ?_
    have hmatch : l.isMatch slots hit = true := (findMatches_fst_eq_some_iff.1 hhit).1
    rw [hall hit] at hmatch
    cases hmatch

theorem eq_of_isMatch_of_snd_eq_none {hit bank : Nat} (hhit : (l.findMatches slots).1 = some hit)
    (hnone : (l.findMatches slots).2 = none) (hmatch : l.isMatch slots bank = true) :
    bank = hit := by
  have hmem := (l.mem_hits_iff slots).2 hmatch
  rw [findMatches_eq] at hhit hnone
  cases hhits : l.hits slots with
  | nil =>
      rw [hhits] at hmem
      cases hmem
  | cons first rest =>
      rw [hhits] at hhit hnone hmem
      cases rest with
      | nil => exact (List.mem_singleton.1 hmem).trans (Option.some.inj hhit)
      | cons alt rest => cases hnone

theorem isMatch_eq_false_of_past {bank : Nat} (hpast : past (l.findMatches slots).1 ≤ bank) :
    l.isMatch slots bank = false := by
  cases hhit : (l.findMatches slots).1 with
  | none => exact findMatches_fst_eq_none_iff.1 hhit bank
  | some hit =>
      rw [hhit, past_le_iff] at hpast
      refine Bool.eq_false_of_not_eq_true fun hmatch => ?_
      have hle := (findMatches_fst_eq_some_iff.1 hhit).2 hmatch
      have hlt := hpast hit rfl
      omega

/-- What answers below the alternate does not matter to the search. -/
theorem findMatches_congr_of_le {k : Ladder P}
    (h : ∀ bank, (∀ alt, (l.findMatches slots).2 = some alt → alt ≤ bank) →
      k.isMatch slots bank = l.isMatch slots bank) : k.findMatches slots = l.findMatches slots := by
  cases halt : (l.findMatches slots).2 with
  | none =>
      refine findMatches_congr fun bank => h bank fun alt hsome => ?_
      cases halt.symm.trans hsome
  | some alt =>
      obtain ⟨hit, hhit, hlt⟩ := l.descend_findMatches slots alt halt
      have habove : ∀ bank, alt ≤ bank → k.isMatch slots bank = l.isMatch slots bank :=
        fun bank hle => h bank fun alt' hsome => Option.some.inj (halt.symm.trans hsome) ▸ hle
      have hlongest := findMatches_fst_eq_some_iff.1 hhit
      have hnext := (findMatches_snd_eq_some_iff hhit).1 halt
      have hfst : (k.findMatches slots).1 = some hit := by
        refine findMatches_fst_eq_some_iff.2 ⟨(habove hit hlt.le).trans hlongest.1, ?_⟩
        intro bank hmatch
        rcases Nat.le_total alt bank with hle | hle
        · exact hlongest.2 ((habove bank hle).symm.trans hmatch)
        · exact hle.trans hlt.le
      have hsnd : (k.findMatches slots).2 = some alt := by
        refine (findMatches_snd_eq_some_iff hfst).2
          ⟨⟨(habove alt le_rfl).trans hnext.1.1, hlt⟩, ?_⟩
        rintro bank ⟨hmatch, hbelow⟩
        rcases Nat.le_total alt bank with hle | hle
        · exact hnext.2 ⟨(habove bank hle).symm.trans hmatch, hbelow⟩
        · exact hle
      exact Prod.ext (hfst.trans hhit.symm) (hsnd.trans halt.symm)

end Matches

end Ladder

/-! ## Tags -/

/-- An entry with a tag has a payload to answer with. -/
def TaggedEntry.Installed (e : TaggedEntry P) : Prop :=
  e.tag?.isSome = true → Payload.isInstalled e.payload = true

theorem Ladder.installed_signOnly (l : Ladder SignOnly) : l.Entrywise TaggedEntry.Installed :=
  fun _ _ _ _ _ => rfl

theorem TaggedEntry.Installed.isMatch_iff {e : TaggedEntry P} (h : e.Installed) (tag : Nat) :
    e.isMatch tag = true ↔ e.tag? = some tag := by
  rw [TaggedEntry.isMatch, Bool.and_eq_true, decide_eq_true_iff]
  refine and_iff_left_of_imp fun htag => h ?_
  rw [htag]
  rfl

namespace Ladder

/-- The entry of the table at the index of the branch, if it carries the tag of the branch. -/
def Carries (l : Ladder P) (pc : UInt64) (path : PathHistory) (bank : Nat) (e : TaggedEntry P) :
    Prop :=
  ∃ t, l.tables[bank]? = some t ∧ t.entries[t.index pc path]? = some e ∧ e.tag? = some (t.tag pc)

theorem Regular.getElem?_index {c : Config} {l : Ladder P} (h : l.Regular c)
    (hvalid : c.validate = .ok ()) {bank : Nat} {t : TaggedTable P}
    (ht : l.tables[bank]? = some t) (pc : UInt64) (path : PathHistory) :
    t.entries[t.index pc path]? = some (t.entry (t.index pc path)) := by
  have hlt := h.index_lt (h.selects hvalid pc path) ht ( l.entry?_slots ht pc path).2
  change t.index pc path < _ at hlt
  rw [← t.getElem?_mod_size, Nat.mod_eq_of_lt hlt]

/-- A table answers for a branch exactly if the entry at its index carries the tag. -/
theorem Regular.carries_iff {c : Config} {l : Ladder P} (h : l.Regular c)
    (hvalid : c.validate = .ok ()) (hinstalled : l.Entrywise TaggedEntry.Installed) {pc : UInt64}
    {path : PathHistory} {bank : Nat} {e : TaggedEntry P} :
    l.Carries pc path bank e ↔
      l.entry? (l.slots pc path) bank = some e ∧ l.isMatch (l.slots pc path) bank = true := by
  constructor
  · rintro ⟨t, ht, he, htag⟩
    obtain ⟨hentry, hslot⟩ := l.entry?_slots ht pc path
    obtain rfl := Option.some.inj ((h.getElem?_index hvalid ht pc path).symm.trans he)
    refine ⟨hentry, (l.isMatch_eq_true_iff _).2 ⟨_, _, hentry, hslot, ?_⟩⟩
    exact ((hinstalled.holdsAt _ bank _ hentry).isMatch_iff _).2 htag
  · rintro ⟨he, hmatch⟩
    obtain ⟨e', slot, he', hslot, hanswers⟩ := (l.isMatch_eq_true_iff _).1 hmatch
    obtain rfl := Option.some.inj (he'.symm.trans he)
    obtain ⟨t, ht⟩ : ∃ t, l.tables[bank]? = some t :=
      ⟨_, Array.getElem?_eq_getElem (lt_size_of_entry he)⟩
    obtain ⟨hentry, hslot'⟩ := l.entry?_slots ht pc path
    obtain rfl := Option.some.inj (hslot'.symm.trans hslot)
    obtain rfl := Option.some.inj (hentry.symm.trans he)
    refine ⟨t, ht, h.getElem?_index hvalid ht pc path, ?_⟩
    exact ((hinstalled.holdsAt _ bank _ hentry).isMatch_iff _).1 hanswers

end Ladder

end BranchPrediction
