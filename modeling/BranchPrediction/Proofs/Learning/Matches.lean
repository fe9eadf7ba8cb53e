import BranchPrediction.Proofs.Learning.Allocation
import Mathlib.Data.List.Sort

/-!
# Matches after a commit

A commit ends with a tick, which may age the entries and does nothing else to them
(`entry?_tick`).  Neither this nor a change at the slots moves the slots of a branch
(`slots_tick`, `slots_amend`).

A search at the same slots after a change finds what it found before, if no entry gained or lost its
match there; and if one entry past the longest match gained it, this is the longest match now, and
the longest match of before is its alternate (`findMatches_amend`).
-/

namespace BranchPrediction

variable {P : Type}

/-- What the tick at the end of a commit makes of an entry. -/
def TaggedEntry.settle (aged : Bool) (e : TaggedEntry P) : TaggedEntry P :=
  if aged then e.age else e

namespace TaggedEntry

variable (aged : Bool) (e : TaggedEntry P)

@[simp]
theorem tag?_settle : (e.settle aged).tag? = e.tag? := by
  cases aged with
  | true => rfl
  | false => rfl

@[simp]
theorem confidence_settle : (e.settle aged).confidence = e.confidence := by
  cases aged with
  | true => rfl
  | false => rfl

@[simp]
theorem payload_settle : (e.settle aged).payload = e.payload := by
  cases aged with
  | true => rfl
  | false => rfl

/-- A tick takes usefulness from an entry, and does not give it any. -/
theorem useful_settle_le (h : 0 ≤ e.useful.value) :
    0 ≤ (e.settle aged).useful.value ∧ (e.settle aged).useful.value ≤ e.useful.value := by
  cases aged with
  | true =>
      change 0 ≤ e.useful.value / 2 ∧ e.useful.value / 2 ≤ e.useful.value
      omega
  | false => exact ⟨h, le_refl _⟩

theorem isMatch_settle [Payload P] (tag : Nat) :
    TaggedEntry.isMatch (e.settle aged) tag = e.isMatch tag := by
  rw [TaggedEntry.isMatch, tag?_settle, payload_settle, TaggedEntry.isMatch]

end TaggedEntry

namespace Ladder

/-! ## Ticks -/

section Ticks

variable (l : Ladder P)

/-- The next commit ages the entries. -/
def isDue : Bool :=
  (l.stats.commits + 1) % l.config.usefulResetPeriod = 0

theorem tables_tick :
    l.tick.tables = if l.isDue then l.tables.map TaggedTable.age else l.tables := by
  simp only [tick, isDue, decide_eq_true_iff]
  split
  · next hdue => exact (if_pos hdue).symm
  · next hdue => exact (if_neg hdue).symm

theorem entry?_tick (slots : Array Slot) (bank : Nat) :
    l.tick.entry? slots bank = (l.entry? slots bank).map (·.settle l.isDue) := by
  have hage := l.entry?_age slots bank
  unfold entry? at hage ⊢
  rw [tables_tick]
  cases l.isDue with
  | true => exact hage
  | false => exact (congrFun Option.map_id _).symm

theorem entryAt?_tick (bank index : Nat) :
    l.tick.entryAt? bank index = (l.entryAt? bank index).map (·.settle l.isDue) := by
  unfold entryAt?
  rw [tables_tick]
  cases l.isDue with
  | true =>
      simp only [if_true, Array.getElem?_map]
      cases l.tables[bank]? with
      | none => rfl
      | some t => exact Array.getElem?_map
  | false => exact (congrFun Option.map_id _).symm

theorem useAlt_tick : l.tick.useAlt = l.useAlt := by
  simp only [tick]
  split
  · rfl
  · rfl

theorem size_tick : l.tick.size = l.size := by
  unfold size
  rw [tables_tick]
  split
  · exact Array.size_map
  · rfl

theorem config_tick : l.tick.config = l.config := by
  simp only [tick]
  split
  · rfl
  · rfl

theorem allocations_tick : l.tick.stats.allocations = l.stats.allocations := by
  simp only [tick]
  split
  · rfl
  · rfl

theorem failedAllocations_tick :
    l.tick.stats.failedAllocations = l.stats.failedAllocations := by
  simp only [tick]
  split
  · rfl
  · rfl

theorem size_amend (slots : Array Slot) (change : Nat → Slot → TaggedEntry P → TaggedEntry P) :
    (l.amend slots change).size = l.size :=
  Array.size_mapIdx

/-! ## Slots -/

theorem slots_tick (pc : UInt64) (path : PathHistory) :
    l.tick.slots pc path = l.slots pc path := by
  unfold slots
  rw [tables_tick]
  split
  · exact Array.map_map
  · rfl

theorem slots_amend (slots : Array Slot)
    (change : Nat → Slot → TaggedEntry P → TaggedEntry P) (pc : UInt64) (path : PathHistory) :
    (l.amend slots change).slots pc path = l.slots pc path := by
  unfold Ladder.slots
  apply Array.ext_getElem?
  intro bank
  rw [Array.getElem?_map, getElem?_amend, Option.map_map, Array.getElem?_map]
  refine congrArg (Option.map · l.tables[bank]?) (funext fun t => ?_)
  simp only [Function.comp_apply]
  split
  · rfl
  · rfl

end Ticks

/-! ## Matches -/

section Matches

/-- An alternate comes with a longest match, and has the shorter history. -/
def Descend (hit? alt? : Option Nat) : Prop :=
  ∀ alt, alt? = some alt → ∃ hit, hit? = some hit ∧ alt < hit

theorem Descend.ne {hit? alt? : Option Nat} (h : Descend hit? alt?) {bank : Nat}
    (hhit : hit? = some bank) : alt? ≠ some bank := by
  intro halt
  obtain ⟨hit, hhit', hlt⟩ := h bank halt
  obtain rfl := Option.some.inj (hhit.symm.trans hhit')
  exact Nat.lt_irrefl _ hlt

variable [Payload P] {l k : Ladder P} {slots : Array Slot}

theorem descend_findMatches (l : Ladder P) (slots : Array Slot) :
    Descend (l.findMatches slots).1 (l.findMatches slots).2 := by
  intro alt halt
  rcases l.findMatches_cases slots with ⟨hnone, -⟩ | ⟨hit, alt?, hsome, -, hlt⟩
  · rw [hnone] at halt
    cases halt
  · rw [hsome] at halt ⊢
    exact ⟨hit, rfl, (hlt alt halt).2⟩

theorem findMatches_eq (l : Ladder P) (slots : Array Slot) :
    l.findMatches slots = ((l.hits slots)[0]?, (l.hits slots)[1]?) := by
  unfold findMatches
  split
  · next h => rw [h]; rfl
  · next h => rw [h]; rfl
  · next h => rw [h]; rfl

theorem findMatches_congr (h : ∀ bank, k.isMatch slots bank = l.isMatch slots bank) :
    k.findMatches slots = l.findMatches slots := by
  have hhits : k.hits slots = l.hits slots := by
    apply List.Pairwise.eq_of_mem_iff (k.hits_decrease slots) (l.hits_decrease slots)
    intro bank
    rw [mem_hits_iff, mem_hits_iff, h]
  rw [findMatches_eq, findMatches_eq, hhits]

/-- One more match, past all others, is the longest one, and the longest one of before is its
alternate. -/
theorem findMatches_of_new {new : Nat}
    (h : ∀ bank, k.isMatch slots bank = true ↔ bank = new ∨ l.isMatch slots bank = true)
    (hnew : past (l.findMatches slots).1 ≤ new) :
    k.findMatches slots = (some new, (l.findMatches slots).1) := by
  have hdecrease := l.hits_decrease slots
  have hfirst : ∀ bank ∈ l.hits slots, bank < new := by
    intro bank hmem
    rw [findMatches_eq, past_le_iff] at hnew
    cases hhits : l.hits slots with
    | nil =>
        rw [hhits] at hmem
        cases hmem
    | cons hit rest =>
        rw [hhits] at hmem hdecrease hnew
        have hhit : hit < new := hnew hit rfl
        rcases List.mem_cons.1 hmem with rfl | hrest
        · exact hhit
        · exact (List.rel_of_pairwise_cons hdecrease hrest).trans hhit
  have hhits : k.hits slots = new :: l.hits slots := by
    refine List.Pairwise.eq_of_mem_iff (k.hits_decrease slots)
      (List.pairwise_cons.2 ⟨hfirst, hdecrease⟩) fun bank => ?_
    rw [mem_hits_iff, List.mem_cons, mem_hits_iff, h]
  rw [findMatches_eq, findMatches_eq, hhits]
  rfl

theorem isMatch_tick (bank : Nat) : l.tick.isMatch slots bank = l.isMatch slots bank := by
  rw [Bool.eq_iff_iff, isMatch_eq_true_iff, isMatch_eq_true_iff, entry?_tick]
  constructor
  · rintro ⟨e, slot, he, hslot, hmatch⟩
    obtain ⟨e', he', rfl⟩ := Option.map_eq_some_iff.1 he
    exact ⟨e', slot, he', hslot, (e'.isMatch_settle _ slot.tag).symm.trans hmatch⟩
  · rintro ⟨e, slot, he, hslot, hmatch⟩
    exact ⟨_, slot, congrArg _ he, hslot, (e.isMatch_settle _ slot.tag).trans hmatch⟩

theorem findMatches_tick : l.tick.findMatches slots = l.findMatches slots :=
  findMatches_congr isMatch_tick

theorem isMatch_amend_iff {change : Nat → Slot → TaggedEntry P → TaggedEntry P} {bank : Nat} :
    (l.amend slots change).isMatch slots bank = true ↔
      ∃ e slot, l.entry? slots bank = some e ∧ slots[bank]? = some slot ∧
        (change bank slot e).isMatch slot.tag = true := by
  rw [isMatch_eq_true_iff]
  constructor
  · rintro ⟨e, slot, he, hslot, hmatch⟩
    rw [ entry?_amend hslot] at he
    obtain ⟨e', he', rfl⟩ := Option.map_eq_some_iff.1 he
    exact ⟨e', slot, he', hslot, hmatch⟩
  · rintro ⟨e, slot, he, hslot, hmatch⟩
    refine ⟨_, slot, ?_, hslot, hmatch⟩
    rw [ entry?_amend hslot, he, Option.map_some]

/-- If a change gives a match to one table past the longest match at most, and takes none, then the
search finds that table first, and goes on with what it found before. -/
theorem findMatches_amend {change : Nat → Slot → TaggedEntry P → TaggedEntry P}
    {received? : Option Nat}
    (hchange : ∀ bank slot e, slots[bank]? = some slot → l.entry? slots bank = some e →
      ((change bank slot e).isMatch slot.tag = true ↔
        received? = some bank ∨ e.isMatch slot.tag = true))
    (hreceived : ∀ bank, received? = some bank →
      past (l.findMatches slots).1 ≤ bank ∧ ∃ e, l.entry? slots bank = some e) :
    (l.amend slots change).findMatches slots =
      received?.elim (l.findMatches slots) fun bank => (some bank, (l.findMatches slots).1) := by
  have hmatch : ∀ bank, (l.amend slots change).isMatch slots bank = true ↔
      received? = some bank ∨ l.isMatch slots bank = true := by
    intro bank
    rw [isMatch_amend_iff, isMatch_eq_true_iff]
    constructor
    · rintro ⟨e, slot, he, hslot, hmatch⟩
      rcases (hchange bank slot e hslot he).1 hmatch with hnew | hold
      · exact .inl hnew
      · exact .inr ⟨e, slot, he, hslot, hold⟩
    · rintro (hnew | ⟨e, slot, he, hslot, hold⟩)
      · obtain ⟨-, e, he⟩ := hreceived bank hnew
        obtain ⟨slot, hslot⟩ := exists_slot_of_entry he
        exact ⟨e, slot, he, hslot, (hchange bank slot e hslot he).2 (.inl hnew)⟩
      · exact ⟨e, slot, he, hslot, (hchange bank slot e hslot he).2 (.inr hold)⟩
  cases received? with
  | none =>
      apply findMatches_congr
      intro bank
      rw [Bool.eq_iff_iff, hmatch]
      simp
  | some new =>
      refine findMatches_of_new (fun bank => ?_) (hreceived new rfl).1
      rw [hmatch, Option.some_inj, eq_comm]

end Matches

end Ladder

end BranchPrediction
