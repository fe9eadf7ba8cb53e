import BranchPrediction.Proofs.Learning.Entries
import BranchPrediction.Random.Source
import Mathlib.Data.Option.Basic

/-!
# Checked access to tables

The operations of a table cannot fail: an index past its end reads nothing and changes nothing.  The
`checked` operations here do the same work and answer `none` as soon as a check fails: an index is
out of range, the size of a table is not a power of two, a divisor is zero.

Where the slots fit the ladder and the matches are among its tables, no check fails, and the checked
operations answer what the plain ones do.  What a ladder itself must bring along is
`Ladder.Ready`, which learning keeps (`Ladder.Learns.ready`).
-/

namespace BranchPrediction

/-! ## Checks -/

def isPowerOfTwo (n : Nat) : Bool :=
  2 ^ n.log2 = n

theorem isPowerOfTwo_two_pow (k : Nat) : isPowerOfTwo (2 ^ k) = true := by
  simp [isPowerOfTwo]

/-- The mask of the indices of a table, whose size must be a power of two. -/
def checkedMask (size : Nat) : Option Nat := do
  guard (isPowerOfTwo size)
  return size - 1

theorem checkedMask_two_pow (k : Nat) : checkedMask (2 ^ k) = some (2 ^ k - 1) := by
  simp [checkedMask, isPowerOfTwo_two_pow, guard]

/-- A checked change of an optional part, where there is one. -/
theorem mapM_eq_some {α β : Type} {x? : Option α} {f : α → Option β} {g : α → β}
    (h : ∀ x, x? = some x → f x = some (g x)) : x?.mapM f = some (x?.map g) := by
  cases x? with
  | none => rfl
  | some x => rw [Option.mapM_some, h x rfl]; rfl

/-! ## Tables -/

namespace Bimodal

def checkedIndex (t : Bimodal) (pc : UInt64) : Option Nat := do
  let _ ← checkedMask t.counters.size
  return t.index pc

def checkedCounter (t : Bimodal) (index : Nat) : Option Counter := do
  let mask ← checkedMask t.counters.size
  t.counters[index &&& mask]?

def checkedTrain (t : Bimodal) (index : Nat) (direction : Direction) : Option Bimodal := do
  let _ ← t.checkedCounter index
  return t.train index direction

theorem checkedMask_size (t : Bimodal) :
    checkedMask t.counters.size = some (t.counters.size - 1) := by
  rw [t.counters_size, Config.size, Nat.one_shiftLeft, checkedMask_two_pow]

theorem checkedIndex_eq (t : Bimodal) (pc : UInt64) : t.checkedIndex pc = some (t.index pc) := by
  rw [checkedIndex, checkedMask_size]
  rfl

theorem checkedCounter_eq (t : Bimodal) (index : Nat) :
    t.checkedCounter index = some (t.counter index) := by
  have hmask : index &&& (t.counters.size - 1) = index % t.counters.size := by
    rw [t.counters_size, Config.size, Nat.one_shiftLeft, Nat.and_two_pow_sub_one_eq_mod]
  rw [checkedCounter, checkedMask_size]
  change t.counters[index &&& (t.counters.size - 1)]? = _
  rw [hmask, Array.getElem?_eq_getElem (Nat.mod_lt index t.size_pos)]
  rfl

theorem checkedTrain_eq (t : Bimodal) (index : Nat) (direction : Direction) :
    t.checkedTrain index direction = some (t.train index direction) := by
  rw [checkedTrain, checkedCounter_eq]
  rfl

end Bimodal

variable {P : Type}

namespace TaggedTable

def checkedSlot (t : TaggedTable P) (pc : UInt64) (path : PathHistory) : Option Slot := do
  let _ ← checkedMask t.entries.size
  return t.slot pc path

def checkedEntry (t : TaggedTable P) (index : Nat) : Option (TaggedEntry P) := do
  let mask ← checkedMask t.entries.size
  t.entries[index &&& mask]?

theorem checkedMask_size (t : TaggedTable P) :
    checkedMask t.entries.size = some (t.entries.size - 1) := by
  rw [t.entries_size, TableShape.size, Nat.one_shiftLeft, checkedMask_two_pow]

theorem checkedSlot_eq (t : TaggedTable P) (pc : UInt64) (path : PathHistory) :
    t.checkedSlot pc path = some (t.slot pc path) := by
  rw [checkedSlot, checkedMask_size]
  rfl

theorem checkedEntry_eq (t : TaggedTable P) (index : Nat) :
    t.checkedEntry index = some (t.entry index) := by
  have hmask : index &&& (t.entries.size - 1) = index % t.entries.size := by
    rw [t.entries_size, TableShape.size, Nat.one_shiftLeft, Nat.and_two_pow_sub_one_eq_mod]
  rw [checkedEntry, checkedMask_size]
  change t.entries[index &&& (t.entries.size - 1)]? = _
  rw [hmask, getElem?_mod_size]

end TaggedTable

/-! ## Ladders -/

namespace Ladder

def checkedSlots (l : Ladder P) (pc : UInt64) (path : PathHistory) : Option (Array Slot) :=
  l.tables.mapM fun t => t.checkedSlot pc path

def checkedEntry (l : Ladder P) (slots : Array Slot) (bank : Nat) : Option (TaggedEntry P) := do
  let t ← l.tables[bank]?
  let slot ← slots[bank]?
  t.checkedEntry slot.index

/-- Search the tables for the longest match and the next longest one. -/
def checkedFindMatches [Payload P] (l : Ladder P) (slots : Array Slot) :
    Option (Option Nat × Option Nat) := do
  guard ((List.range l.size).all fun bank => (l.checkedEntry slots bank).isSome)
  return l.findMatches slots

def checkedModifyEntry (l : Ladder P) (slots : Array Slot) (bank : Nat)
    (f : TaggedEntry P → TaggedEntry P) : Option (Ladder P) := do
  let _ ← l.checkedEntry slots bank
  return l.modifyEntry slots bank f

def checkedUseAlt (l : Ladder P) (bank : Nat) (conditional : Bool) : Option Counter := do
  guard (l.size ≠ 0)
  l.useAlt[l.useAltIndex bank conditional]?

def checkedPrefersAlt (l : Ladder P) (bank : Nat) (conditional : Bool) : Option Bool := do
  let counter ← l.checkedUseAlt bank conditional
  return 0 ≤ counter.value

/-- Whether an entry of this table defers to the alternate prediction, where it may. -/
def checkedDefers (l : Ladder P) (mayDefer : Bool) (bank : Nat) (conditional : Bool) :
    Option Bool :=
  if mayDefer then l.checkedPrefersAlt bank conditional else some false

/-- The entry of the longest match, and whether it defers to the alternate prediction. -/
def checkedLongest (l : Ladder P) (slots : Array Slot) (mayDefer : TaggedEntry P → Bool)
    (conditional : Bool) (bank : Nat) : Option (TaggedEntry P × Bool) := do
  let e ← l.checkedEntry slots bank
  let defers ← l.checkedDefers (mayDefer e) bank conditional
  return (e, defers)

def checkedTrainUseAlt (l : Ladder P) (bank : Nat) (conditional altCorrect : Bool) :
    Option (Ladder P) := do
  let _ ← l.checkedUseAlt bank conditional
  return l.trainUseAlt bank conditional altCorrect

def checkedAllocateAmong (slots : Array Slot) (confidence : Int) (payload : P) :
    List Nat → Ladder P → Option (Ladder P × Option Nat)
  | [], l => some (l, none)
  | bank :: rest, l => do
    let slot ← slots[bank]?
    let e ← l.checkedEntry slots bank
    if e.useful.value = 0 then
      return (l.modifyEntry slots bank (·.allocate slot.tag confidence payload), some bank)
    else checkedAllocateAmong slots confidence payload rest (l.trainUseful slots bank false)

def checkedAllocate (l : Ladder P) (slots : Array Slot) (hit? : Option Nat) (skip : Bool)
    (payload : P) (confidence : Int) : Option (Ladder P) := do
  let _ ← checkedAllocateAmong slots confidence payload (l.candidates hit? skip) l
  return (l.allocate slots hit? skip payload confidence).1

def checkedTick (l : Ladder P) : Option (Ladder P) := do
  guard (l.config.usefulResetPeriod ≠ 0)
  return l.tick

def Config.checkedDraw {G : Type} [RandomSource G] (c : Config) (random : G) : Option (Bool × G) :=
  if c.allocationSkip then RandomSource.ratio? 1 4 random else some (false, random)

theorem Config.checkedDraw_eq {G : Type} [RandomSource G] (c : Config) (random : G) :
    c.checkedDraw random =
      some (if c.allocationSkip then RandomSource.ratio 1 4 random else (false, random)) := by
  unfold checkedDraw
  split
  · rfl
  · rfl

theorem checkedSlots_eq (l : Ladder P) (pc : UInt64) (path : PathHistory) :
    l.checkedSlots pc path = some (l.slots pc path) := by
  have hslot : (fun t : TaggedTable P => t.checkedSlot pc path) =
      fun t => pure (t.slot pc path) := by
    funext t
    exact t.checkedSlot_eq pc path
  rw [checkedSlots, hslot, Array.mapM_pure]
  rfl

/-- The checked access to an entry finds what there is to find. -/
theorem checkedEntry_eq (l : Ladder P) (slots : Array Slot) (bank : Nat) :
    l.checkedEntry slots bank = l.entry? slots bank := by
  unfold checkedEntry entry?
  cases l.tables[bank]? with
  | none => rfl
  | some t =>
      cases slots[bank]? with
      | none => rfl
      | some slot => exact t.checkedEntry_eq slot.index

section Fitting

variable {l : Ladder P} {slots : Array Slot} (hslots : l.fits slots = true)

include hslots

theorem exists_entry {bank : Nat} (hbank : bank < l.size) :
    ∃ e slot, l.checkedEntry slots bank = some e ∧ l.entry? slots bank = some e ∧
      slots[bank]? = some slot := by
  have hsize : slots.size = l.size := of_decide_eq_true hslots
  have htable : l.tables[bank]? = some l.tables[bank] := Array.getElem?_eq_getElem hbank
  have hslot : slots[bank]? = some slots[bank] := Array.getElem?_eq_getElem (hsize ▸ hbank)
  have hentry : l.entry? slots bank = some (l.tables[bank].entry slots[bank].index) := by
    rw [ entry?, htable, hslot]
  exact ⟨_, _, (l.checkedEntry_eq slots bank).trans hentry, hentry, hslot⟩

theorem checkedFindMatches_eq [Payload P] :
    l.checkedFindMatches slots = some (l.findMatches slots) := by
  have hall : (List.range l.size).all (fun bank => (l.checkedEntry slots bank).isSome) = true := by
    rw [List.all_eq_true]
    intro bank hbank
    obtain ⟨e, -, he, -⟩ := exists_entry hslots (List.mem_range.1 hbank)
    rw [he]
    rfl
  simp [checkedFindMatches, hall, guard]

theorem checkedModifyEntry_eq {bank : Nat} (hbank : bank < l.size)
    (f : TaggedEntry P → TaggedEntry P) :
    l.checkedModifyEntry slots bank f = some (l.modifyEntry slots bank f) := by
  obtain ⟨e, -, he, -⟩ := exists_entry hslots hbank
  rw [checkedModifyEntry, he]
  rfl

end Fitting

theorem exists_mapM {α : Type} {l : Ladder P} {f : Nat → Option α} {bank? : Option Nat}
    (hbank : l.hasBank bank? = true) (h : ∀ bank < l.size, ∃ x, f bank = some x) :
    ∃ x?, bank?.mapM f = some x? := by
  cases bank? with
  | none => exact ⟨none, rfl⟩
  | some bank =>
      obtain ⟨x, hx⟩ := h bank (of_decide_eq_true hbank)
      exact ⟨some x, by rw [Option.mapM_some, hx]; rfl⟩

/-- There are tables, as many use-alt-on-new counters as configured, and a period of aging. -/
structure Ready (l : Ladder P) : Prop where
  size_pos : 0 < l.size
  buckets_pos : 0 < l.config.useAltBuckets
  useAlt_size : l.useAlt.size = l.config.useAltBuckets * 2
  period_ne_zero : l.config.usefulResetPeriod ≠ 0

namespace Ready

variable {l : Ladder P} (h : l.Ready)

include h

theorem useAltIndex_lt {bank : Nat} (hbank : bank < l.size) (conditional : Bool) :
    l.useAltIndex bank conditional < l.useAlt.size := by
  have hproduct : bank * l.config.useAltBuckets < l.config.useAltBuckets * l.size := by
    rw [Nat.mul_comm]
    exact Nat.mul_lt_mul_of_pos_left hbank h.buckets_pos
  have hbucket :
      bank * l.config.useAltBuckets % UInt64.size / l.size < l.config.useAltBuckets := by
    rw [Nat.div_lt_iff_lt_mul h.size_pos]
    exact Nat.lt_of_le_of_lt (Nat.mod_le _ _) hproduct
  have hbit : conditional.toNat < 2 := Bool.toNat_lt conditional
  rw [h.useAlt_size, useAltIndex]
  omega

theorem exists_useAlt {bank : Nat} (hbank : bank < l.size) (conditional : Bool) :
    ∃ counter, l.checkedUseAlt bank conditional = some counter ∧
      l.useAlt[l.useAltIndex bank conditional]? = some counter := by
  have hsize : l.size ≠ 0 := Nat.ne_of_gt h.size_pos
  have hcounter := Array.getElem?_eq_getElem (h.useAltIndex_lt hbank conditional)
  refine ⟨_, ?_, hcounter⟩
  simp [checkedUseAlt, hsize, hcounter, guard]

theorem checkedPrefersAlt_eq {bank : Nat} (hbank : bank < l.size) (conditional : Bool) :
    l.checkedPrefersAlt bank conditional = some (l.prefersAlt bank conditional) := by
  obtain ⟨counter, hchecked, hcounter⟩ := h.exists_useAlt hbank conditional
  rw [checkedPrefersAlt, hchecked, prefersAlt, hcounter]
  rfl

theorem exists_longest {slots : Array Slot} (hslots : l.fits slots = true)
    (mayDefer : TaggedEntry P → Bool) (conditional : Bool) {hit? : Option Nat}
    (hhit : l.hasBank hit? = true) :
    ∃ longest, hit?.mapM (l.checkedLongest slots mayDefer conditional) = some longest := by
  refine exists_mapM hhit fun bank hbank => ?_
  obtain ⟨e, -, he, -⟩ := exists_entry hslots hbank
  obtain ⟨defers, hdefers⟩ : ∃ defers, l.checkedDefers (mayDefer e) bank conditional =
      some defers := by
    unfold checkedDefers
    split
    · exact ⟨_, h.checkedPrefersAlt_eq hbank conditional⟩
    · exact ⟨false, rfl⟩
  refine ⟨(e, defers), ?_⟩
  rw [checkedLongest, he]
  simp only [Option.bind_eq_bind, Option.bind_some, hdefers]
  rfl

theorem checkedTrainUseAlt_eq {bank : Nat} (hbank : bank < l.size)
    (conditional altCorrect : Bool) :
    l.checkedTrainUseAlt bank conditional altCorrect =
      some (l.trainUseAlt bank conditional altCorrect) := by
  obtain ⟨counter, hchecked, -⟩ := h.exists_useAlt hbank conditional
  rw [checkedTrainUseAlt, hchecked]
  rfl

theorem checkedTick_eq : l.checkedTick = some l.tick := by
  simp [checkedTick, h.period_ne_zero, guard]

end Ready

/-! ## What learning keeps -/

section Learning

variable {slots : Array Slot} {E : Nat → (TaggedEntry P → TaggedEntry P) → Prop} {l k : Ladder P}

/-- Learning keeps the configuration and the numbers of tables and of use-alt-on-new counters. -/
theorem Learns.sizes_eq (h : Learns slots E l k) :
    k.config = l.config ∧ k.size = l.size ∧ k.useAlt.size = l.useAlt.size := by
  induction h with
  | refl => exact ⟨rfl, rfl, rfl⟩
  | @entry k _ bank f _ ih =>
      unfold modifyEntry
      split
      · exact ih
      · exact ⟨ih.1, (Array.size_modify ..).trans ih.2.1, ih.2.2⟩
  | useAlt _ bank conditional altCorrect ih =>
      exact ⟨ih.1, ih.2.1, (Array.size_modify ..).trans ih.2.2⟩
  | age _ ih => exact ⟨ih.1, Array.size_map.trans ih.2.1, ih.2.2⟩
  | stats _ f ih => exact ih

theorem Learns.ready (h : Learns slots E l k) (hl : l.Ready) : k.Ready := by
  obtain ⟨hconfig, hsize, huseAlt⟩ := h.sizes_eq
  exact ⟨hsize ▸ hl.size_pos, hconfig ▸ hl.buckets_pos,
    by rw [huseAlt, hconfig]; exact hl.useAlt_size, hconfig ▸ hl.period_ne_zero⟩

theorem Learns.fits_eq (h : Learns slots E l k) (slots' : Array Slot) :
    k.fits slots' = l.fits slots' := by
  simp only [fits, h.sizes_eq.2.1]

theorem Learns.hasBank_eq (h : Learns slots E l k) (bank? : Option Nat) :
    k.hasBank bank? = l.hasBank bank? := by
  simp only [hasBank, h.sizes_eq.2.1]

end Learning

/-! ## Allocation -/

theorem candidates_lt (l : Ladder P) (hit? : Option Nat) (skip : Bool) :
    ∀ bank ∈ l.candidates hit? skip, bank < l.size := by
  have hscan : ∀ first bank : Nat,
      bank ∈ (if l.size ≤ first then [] else
        List.range' (if skip then min (first + 1) (l.size - 1) else first)
          (min l.config.maxAllocationScan
            (l.size - if skip then min (first + 1) (l.size - 1) else first))) →
        bank < l.size := by
    intro first bank hbank
    split at hbank
    · cases hbank
    · obtain ⟨-, hlt⟩ := List.mem_range'_1.1 hbank
      split at hlt <;> omega
  intro bank hbank
  cases hit? with
  | none => exact hscan 0 bank hbank
  | some hit => exact hscan (hit + 1) bank hbank

theorem checkedAllocateAmong_eq {slots : Array Slot} (confidence : Int) (payload : P)
    {banks : List Nat} {l : Ladder P} (hslots : l.fits slots = true)
    (hbanks : ∀ bank ∈ banks, bank < l.size) :
    checkedAllocateAmong slots confidence payload banks l =
      some (allocateAmong slots confidence payload banks l) := by
  induction banks generalizing l with
  | nil => rfl
  | cons bank rest ih =>
      obtain ⟨e, slot, hchecked, hentry, hslot⟩ := exists_entry hslots (hbanks bank (by simp))
      -- a candidate that is passed over loses usefulness, and the sizes stay
      have hlearns : Learns slots (fun _ _ => True) l (l.trainUseful slots bank false) :=
        Learns.refl.entry trivial
      have hrest := ih (l := l.trainUseful slots bank false) ((hlearns.fits_eq slots).trans hslots)
        fun bank' hbank' => by
          rw [hlearns.sizes_eq.2.1]
          exact hbanks bank' (List.mem_cons_of_mem _ hbank')
      rw [checkedAllocateAmong, hslot, hchecked, allocateAmong, hentry, hslot]
      change (if e.useful.value = 0 then _ else _) = some (if e.useful.value = 0 then _ else _)
      split
      · rfl
      · exact hrest

theorem checkedAllocate_eq {l : Ladder P} {slots : Array Slot} (hslots : l.fits slots = true)
    (hit? : Option Nat) (skip : Bool) (payload : P) (confidence : Int) :
    l.checkedAllocate slots hit? skip payload confidence =
      some (l.allocate slots hit? skip payload confidence).1 := by
  rw [checkedAllocate, checkedAllocateAmong_eq confidence payload hslots
    (l.candidates_lt hit? skip)]
  rfl

end Ladder

end BranchPrediction
