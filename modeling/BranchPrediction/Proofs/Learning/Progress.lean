import BranchPrediction.Proofs.Learning.Footprint
import BranchPrediction.Proofs.Search

/-!
# What an allocation finds, and that it does not fail for ever

An allocation visits the tables of a range: it starts just past the longest match, or one table
further out, and goes over as many tables as the configuration says, if there are so many
(`mem_candidates_iff`).  The first table of the range whose entry has no usefulness gets the new
entry; those before it, or all if there is none, lose one from their usefulness, and nothing else
changes (`Ladder.Scanned`).

So an allocation that fails has taken one from the usefulness of every entry that it could have
replaced.  If nothing gives that back, an allocation for the same slots must succeed before a
counter of usefulness has been counted down (`exists_allocation`).
-/

namespace BranchPrediction

open Ladder

variable {P : Type}

namespace Ladder

/-! ## The range of a scan -/

def scanStart (tables : Nat) (hit? : Option Nat) (skip : Bool) : Nat :=
  if skip then min (past hit? + 1) (tables - 1) else past hit?

def scanEnd (c : Config) (hit? : Option Nat) (skip : Bool) : Nat :=
  min (scanStart c.tables.length hit? skip + c.maxAllocationScan) c.tables.length

section Range

variable {c : Config} {l : Ladder P} {hit? : Option Nat} {skip : Bool}

theorem mem_candidates_iff (hconfig : l.config = c) (hsize : l.size = c.tables.length)
    {bank : Nat} :
    bank ∈ l.candidates hit? skip ↔ past hit? < c.tables.length ∧
      scanStart c.tables.length hit? skip ≤ bank ∧ bank < scanEnd c hit? skip := by
  rw [candidates_eq, hconfig, hsize]
  split
  · next hnone => simp [Nat.not_lt.2 hnone]
  · next hsome =>
      simp only [List.mem_range'_1, scanEnd]
      change scanStart c.tables.length hit? skip ≤ bank ∧ bank < scanStart c.tables.length hit? skip
        + min c.maxAllocationScan (c.tables.length - scanStart c.tables.length hit? skip) ↔ _
      omega

theorem scanStart_lt_scanEnd (hvalid : c.validate = .ok ()) (hpast : past hit? < c.tables.length) :
    scanStart c.tables.length hit? skip < scanEnd c hit? skip := by
  have hscan := c.maxAllocationScan_pos_of_validate hvalid
  unfold scanEnd scanStart
  split
  · omega
  · omega

/-- The candidates are in the order of their history lengths. -/
theorem candidates_increase (l : Ladder P) (hit? : Option Nat) (skip : Bool) :
    (l.candidates hit? skip).Pairwise (· < ·) := by
  rw [candidates_eq]
  split
  · exact .nil
  · exact List.pairwise_lt_range'

end Range

/-! ## What a scan does -/

/-- An allocation turns `l` into `k` and answers `received?`.  It is tried if there is a table past
the longest match, and then visits tables from `start` on, up to `stop`. -/
structure Scanned (l k : Ladder P) (slots : Array Slot) (tried : Prop) (start stop : Nat)
    (payload : P) (confidence : Int) (received? : Option Nat) : Prop where
  /-- The recipient is the first table in the range whose entry has no usefulness. -/
  received : ∀ bank, received? = some bank ↔ tried ∧
    IsLeast {bank | start ≤ bank ∧ bank < stop ∧
      ∃ e, l.entry? slots bank = some e ∧ e.useful.value = 0} bank
  /-- Its entry is a fresh one. -/
  fresh : ∀ bank, received? = some bank → ∃ slot e e', slots[bank]? = some slot ∧
    l.entry? slots bank = some e ∧ k.entry? slots bank = some e' ∧ e'.tag? = some slot.tag ∧
      e'.confidence = e.confidence.set confidence ∧ e'.useful.value = 0 ∧ e'.payload = payload
  /-- The entries that the scan passes over lose one from their usefulness, and nothing else. -/
  passed : tried → ∀ bank, start ≤ bank → bank < received?.getD stop →
    ∃ e useful, l.entry? slots bank = some e ∧ k.entry? slots bank = some { e with useful } ∧
      useful.value = e.useful.value - 1
  /-- Every other entry is as before. -/
  others : ∀ bank index, (tried → start ≤ bank → bank < received?.elim stop (· + 1) →
      ∀ table slot, l.tables[bank]? = some table → slots[bank]? = some slot →
        slot.index % table.entries.size ≠ index) →
    k.entryAt? bank index = l.entryAt? bank index
  /-- So are the configuration and the use-alt-on-new counters. -/
  frame : k.config = l.config ∧ k.useAlt = l.useAlt

theorem entryAt?_amend_of_id {l : Ladder P} {slots : Array Slot}
    {change : Nat → Slot → TaggedEntry P → TaggedEntry P} {bank : Nat}
    (h : ∀ slot e, change bank slot e = e) (index : Nat) :
    entryAt? (l.amend slots change) bank index = l.entryAt? bank index := by
  simp only [ entryAt?, getElem?_amend]
  cases l.tables[bank]? with
  | none => rfl
  | some t =>
      cases slots[bank]? with
      | none => rfl
      | some slot =>
          simp only [Option.map_some, TaggedTable.modifyEntry_eq_self (h slot _)]

section Scan

variable [Payload P] {c : Config} {l : Ladder P} (hl : l.Regular c) {slots : Array Slot}
  (hslots : slots.size = c.tables.length) (hit? : Option Nat) (skip : Bool)

include hl

/-- The recipient is the least free table of the range. -/
theorem recipient?_eq_some_iff {bank : Nat} :
    l.recipient? slots hit? skip = some bank ↔ past hit? < c.tables.length ∧
      IsLeast {bank | scanStart c.tables.length hit? skip ≤ bank ∧ bank < scanEnd c hit? skip ∧
        ∃ e, l.entry? slots bank = some e ∧ e.useful.value = 0} bank := by
  rw [recipient?, find?_eq_some_iff_isLeast (l.candidates_increase hit? skip)]
  simp only [mem_candidates_iff hl.config_eq hl.size_eq, isFree_iff]
  by_cases hpast : past hit? < c.tables.length
  · simp only [hpast, true_and, and_assoc]
  · simp [hpast, IsLeast]

theorem mem_passed_iff {bank : Nat} :
    bank ∈ l.passed slots hit? skip ↔ past hit? < c.tables.length ∧
      scanStart c.tables.length hit? skip ≤ bank ∧
        bank < (l.recipient? slots hit? skip).getD (scanEnd c hit? skip) := by
  rw [passed, mem_takeWhile_not_iff (l.candidates_increase hit? skip),
    mem_candidates_iff hl.config_eq hl.size_eq]
  change _ ∧ (∀ y, l.recipient? slots hit? skip = some y → bank < y) ↔ _
  cases hrecipient : l.recipient? slots hit? skip with
  | none => simp
  | some b =>
      obtain ⟨-, ⟨-, hlt, -⟩, -⟩ := (recipient?_eq_some_iff hl hit? skip).1 hrecipient
      simp only [Option.some.injEq, forall_eq', Option.getD_some]
      omega

/-- An entry that a scan passes over has some usefulness, and loses one. -/
theorem grant_of_mem_passed {bank : Nat} (hmem : bank ∈ l.passed slots hit? skip)
    {e : TaggedEntry P} (he : l.entry? slots bank = some e) (slot : Slot) (payload : P)
    (confidence : Int) :
    ∃ useful, grant confidence payload (l.recipient? slots hit? skip)
        (l.passed slots hit? skip) bank slot e = { e with useful } ∧
      useful.value = e.useful.value - 1 := by
  have hrecipient : l.recipient? slots hit? skip ≠ some bank := by
    intro hsome
    have hbefore := ((mem_passed_iff hl hit? skip).1 hmem).2.2
    rw [hsome] at hbefore
    exact Nat.lt_irrefl _ hbefore
  have hfree : l.isFree slots bank = false := by simpa using List.mem_takeWhile_imp hmem
  have hzero : e.useful.value ≠ 0 :=
    fun hzero => Bool.false_ne_true (hfree.symm.trans (isFree_iff.2 ⟨e, he, hzero⟩))
  obtain ⟨hrange, hmin, -⟩ := hl.useful.holdsAt slots bank e he
  refine ⟨e.useful.decrement, ?_, ?_⟩
  · rw [grant, if_neg hrecipient, if_pos hmem]
    rfl
  · have hdecrement := e.useful.value_decrement
    rw [hrange] at hdecrement
    simp only [Counter.Range.unsigned] at hmin hdecrement
    omega

include hslots

theorem exists_entry_of_lt {bank : Nat} (hbank : bank < c.tables.length) :
    ∃ slot e, slots[bank]? = some slot ∧ l.entry? slots bank = some e := by
  have hfits : l.fits slots = true := decide_eq_true (hslots.trans hl.size_eq.symm)
  obtain ⟨e, slot, -, he, hslot⟩ := exists_entry hfits (hbank.trans_eq hl.size_eq.symm)
  exact ⟨slot, e, hslot, he⟩

theorem scanned_allocate (payload : P) (confidence : Int) :
    Scanned l (l.allocate slots hit? skip payload confidence).1 slots
      (past hit? < c.tables.length) (scanStart c.tables.length hit? skip) (scanEnd c hit? skip)
      payload confidence (l.allocate slots hit? skip payload confidence).2 := by
  have hentry : ∀ {bank slot}, slots[bank]? = some slot → _ = _ :=
    fun hslot => entry?_amend (l := l) hslot (grant confidence payload
      (l.recipient? slots hit? skip) (l.passed slots hit? skip))
  rw [allocate_eq]
  constructor
  case received => exact fun bank => recipient?_eq_some_iff hl hit? skip
  case fresh =>
    intro bank hbank
    obtain ⟨e, he, -⟩ := (recipient?_spec hbank).2.2
    obtain ⟨slot, hslot⟩ := exists_slot_of_entry he
    refine ⟨slot, e, e.allocate slot.tag confidence payload, hslot, he, ?_, rfl, rfl, rfl, rfl⟩
    refine (hentry hslot).trans ?_
    rw [he, Option.map_some, grant, if_pos hbank]
  case passed =>
    intro hpast bank hstart hstop
    have hmem : bank ∈ l.passed slots hit? skip :=
      (mem_passed_iff hl hit? skip).2 ⟨hpast, hstart, hstop⟩
    have hbank := l.candidates_lt hit? skip bank (List.takeWhile_subset _ hmem)
    obtain ⟨slot, e, hslot, he⟩ := exists_entry_of_lt hl hslots (hbank.trans_eq hl.size_eq)
    obtain ⟨useful, hgrant, hvalue⟩ :=
      grant_of_mem_passed hl hit? skip hmem he slot payload confidence
    refine ⟨e, useful, he, ?_, hvalue⟩
    refine (hentry hslot).trans ?_
    rw [he, Option.map_some, hgrant]
  case others =>
    intro bank index hother
    change entryAt? (l.amend slots _) bank index = _
    -- a table that the scan changes is changed at its slot only, and the other tables not at all
    by_cases hrecipient : l.recipient? slots hit? skip = some bank
    · obtain ⟨hpast, ⟨hstart, -, -⟩, -⟩ := (recipient?_eq_some_iff hl hit? skip).1 hrecipient
      refine entryAt?_amend_of_ne (hother hpast hstart ?_) _
      rw [hrecipient]
      exact Nat.lt_succ_self bank
    · by_cases hpassed : bank ∈ l.passed slots hit? skip
      · obtain ⟨hpast, hstart, hstop⟩ := (mem_passed_iff hl hit? skip).1 hpassed
        refine entryAt?_amend_of_ne (hother hpast hstart ?_) _
        change bank < (l.recipient? slots hit? skip).elim (scanEnd c hit? skip) (· + 1)
        cases hreceived : l.recipient? slots hit? skip with
        | none =>
            rw [hreceived] at hstop
            exact hstop
        | some b =>
            rw [hreceived] at hstop
            exact Nat.lt_succ_of_lt hstop
      · refine entryAt?_amend_of_id (fun slot e => ?_) index
        rw [grant, if_neg hrecipient, if_neg hpassed]
  case frame => exact ⟨rfl, rfl⟩

end Scan

/-! ## Progress -/

section Progress

variable [Payload P] {c : Config} {slots : Array Slot} (hslots : slots.size = c.tables.length)
  {hit? : Option Nat} {skip : Bool} (hpast : past hit? < c.tables.length)

/-- Allocations one after another, for the same slots and past the same longest match.  Between two
of them anything may happen that does not give usefulness to an entry at the slots. -/
structure Attempts (c : Config) (slots : Array Slot) (hit? : Option Nat) (skip : Bool)
    (states : Nat → Ladder P) (payloads : Nat → P) (confidences : Nat → Int) : Prop where
  regular : ∀ i < 2 ^ c.usefulBits, (states i).Regular c
  calm : ∀ i, i + 1 < 2 ^ c.usefulBits → ∀ bank e e',
    entry? ((states i).allocate slots hit? skip (payloads i) (confidences i)).1 slots bank =
        some e →
      entry? (states (i + 1)) slots bank = some e' → e'.useful.value ≤ e.useful.value

variable {states : Nat → Ladder P} {payloads : Nat → P} {confidences : Nat → Int}

include hslots hpast

/-- As long as the allocations fail, they count down the usefulness of the first candidate. -/
theorem useful_le_of_failures (hvalid : c.validate = .ok ())
    (h : Attempts c slots hit? skip states payloads confidences) {i : Nat}
    (hi : i < 2 ^ c.usefulBits)
    (hfail : ∀ j < i, ((states j).allocate slots hit? skip (payloads j) (confidences j)).2 = none) :
    ∃ e, entry? (states i) slots (scanStart c.tables.length hit? skip) = some e ∧
      e.useful.value + i < (2 ^ c.usefulBits : Nat) := by
  have hfirst : scanStart c.tables.length hit? skip < scanEnd c hit? skip :=
    scanStart_lt_scanEnd hvalid hpast
  have htable : scanStart c.tables.length hit? skip < c.tables.length :=
    hfirst.trans_le (Nat.min_le_right _ _)
  induction i with
  | zero =>
      obtain ⟨-, e, -, he⟩ := exists_entry_of_lt (h.regular 0 hi) hslots htable
      have hmax := ((h.regular 0 hi).useful.holdsAt slots _ e he).le_max
      refine ⟨e, he, ?_⟩
      simp only [Counter.Range.unsigned, Nat.one_shiftLeft] at hmax
      omega
  | succ i ih =>
      have hbefore : i < 2 ^ c.usefulBits := (Nat.lt_succ_self i).trans hi
      obtain ⟨e, he, hle⟩ := ih hbefore fun j hj => hfail j (hj.trans (Nat.lt_succ_self i))
      have hnone := hfail i (Nat.lt_succ_self i)
      have hscan := scanned_allocate (h.regular i hbefore) hslots hit? skip (payloads i)
        (confidences i)
      obtain ⟨e₀, useful, he₀, hafter, hvalue⟩ := hscan.passed hpast _ (le_refl _)
        (by rw [hnone]; exact hfirst)
      obtain rfl := Option.some.inj (he.symm.trans he₀)
      obtain ⟨-, e', -, he'⟩ := exists_entry_of_lt (h.regular (i + 1) hi) hslots htable
      have hcalm := h.calm i hi _ _ _ hafter he'
      refine ⟨e', he', ?_⟩
      simp only at hcalm
      omega

/-- As many allocations as a counter of usefulness has values do not all fail. -/
theorem exists_allocation (hvalid : c.validate = .ok ())
    (h : Attempts c slots hit? skip states payloads confidences) :
    ∃ i < 2 ^ c.usefulBits,
      ((states i).allocate slots hit? skip (payloads i) (confidences i)).2.isSome = true := by
  by_contra hnever
  have hfail : ∀ i < 2 ^ c.usefulBits,
      ((states i).allocate slots hit? skip (payloads i) (confidences i)).2 = none := by
    intro i hi
    rw [← Option.not_isSome_iff_eq_none]
    exact fun hsome => hnever ⟨i, hi, hsome⟩
  have hpow := Nat.two_pow_pos c.usefulBits
  set last := 2 ^ c.usefulBits - 1
  have hlast : last < 2 ^ c.usefulBits := by omega
  have hregular := h.regular last hlast
  obtain ⟨e, he, hle⟩ := useful_le_of_failures hslots hpast hvalid h hlast
    fun j hj => hfail j (hj.trans hlast)
  -- nothing is left of the usefulness of the first candidate, which therefore is free
  have hzero : e.useful.value = 0 := by
    have hmin := (hregular.useful.holdsAt slots _ e he).min_le
    simp only [Counter.Range.unsigned] at hmin
    omega
  have hscan := scanned_allocate hregular hslots hit? skip (payloads last) (confidences last)
  have hfirst : scanStart c.tables.length hit? skip < scanEnd c hit? skip :=
    scanStart_lt_scanEnd hvalid hpast
  have hreceived := (hscan.received (scanStart c.tables.length hit? skip)).2
    ⟨hpast, ⟨le_refl _, hfirst, e, he, hzero⟩, fun bank hbank => hbank.1⟩
  rw [hfail last hlast] at hreceived
  cases hreceived

end Progress

end Ladder

/-- The scan of an allocation, and its progress.  In every ladder of a valid configuration, for all
slots, one for each table, and every longest match: an allocation is tried if there is a table past
the longest match.  It then visits tables from `start` on and ends before `stop`, and what it does
is said by `Ladder.Scanned`.  And as many allocations for the same slots as a counter of usefulness
has values include one that succeeds, if none of the entries at the slots is given usefulness in
between. -/
theorem allocation_scans [Payload P] {c : Ladder.Config} (hvalid : c.validate = .ok ())
    {slots : Array Slot} (hslots : slots.size = c.tables.length) (hit? : Option Nat) (skip : Bool) :
    let n := c.tables.length
    let first := hit?.elim 0 (· + 1)
    let start := if skip then min (first + 1) (n - 1) else first
    let stop := min (start + c.maxAllocationScan) n
    (∀ l : Ladder P, l.Regular c → ∀ payload confidence,
      let allocated := l.allocate slots hit? skip payload confidence
      Scanned l allocated.1 slots (first < n) start stop payload confidence allocated.2) ∧
      (first < n → ∀ (states : Nat → Ladder P) (payloads : Nat → P) (confidences : Nat → Int),
        Attempts c slots hit? skip states payloads confidences → ∃ i < 2 ^ c.usefulBits,
          ((states i).allocate slots hit? skip (payloads i) (confidences i)).2.isSome = true) := by
  intro n first start stop
  refine ⟨fun l hl payload confidence => ?_, fun hpast states payloads confidences h => ?_⟩
  · exact scanned_allocate hl hslots hit? skip payload confidence
  · exact exists_allocation hslots hpast hvalid h

namespace Ladder

/-- Three tables of two entries whose usefulness has one bit. -/
def crowdedConfig : Config where
  tables := [⟨2, 1, 2⟩, ⟨3, 1, 2⟩, ⟨4, 1, 2⟩]
  usefulBits := 1
  maxAllocationScan := 2
  pathBits := 3
  historyBufferBits := 8
  maxInFlightBits := 3

def crowdedSlots : Array Slot :=
  #[⟨0, 1⟩, ⟨1, 2⟩, ⟨1, 3⟩]

def crowded : Ladder SignOnly :=
  ((blank crowdedConfig).trainUseful crowdedSlots 1 true).trainUseful crowdedSlots 2 true

/-- An allocation for a branch that matched the first table, and a tick after it. -/
def crowdedStates : Nat → Ladder SignOnly
  | 0 => crowded
  | i + 1 => ((crowdedStates i).allocate crowdedSlots (some 0) true ⟨⟩ 0).1.tick

end Ladder

/-- The first allocation fails, and the second one does not. -/
theorem crowded_allocation_scans :
    let allocated := fun i => (crowdedStates i).allocate crowdedSlots (some 0) true ⟨⟩ 0
    crowdedConfig.validate = .ok () ∧ crowdedSlots.size = crowdedConfig.tables.length ∧
      (crowded.Regular crowdedConfig ∧
        Scanned crowded (allocated 0).1 crowdedSlots (1 < 3) 2 3 ⟨⟩ 0 (allocated 0).2) ∧
      Attempts crowdedConfig crowdedSlots (some 0) true crowdedStates (fun _ => ⟨⟩) (fun _ => 0) ∧
      (allocated 0).2 = none ∧ ∃ i < 2 ^ 1, (allocated i).2.isSome = true := by
  intro allocated
  have hcrowded : crowded.reset = blank crowdedConfig := by
    unfold crowded trainUseful
    rw [reset_modifyEntry (·.invalidate_stepUseful true),
      reset_modifyEntry (·.invalidate_stepUseful true), reset_blank]
  have hlater : (crowdedStates 1).reset = crowded.reset :=
    (Learns.refl.allocate (fun _ up e => e.invalidate_stepUseful up)
      (fun _ tag e => e.invalidate_allocate tag 0 _) _ _).tick.reset_eq
  have hregular : ∀ i < 2 ^ crowdedConfig.usefulBits,
      (crowdedStates i).Regular crowdedConfig := by
    intro i hi
    match i, hi with
    | 0, _ => exact regular_of_reset hcrowded
    | 1, _ => exact regular_of_reset (hlater.trans hcrowded)
  have hattempts : Attempts crowdedConfig crowdedSlots (some 0) true crowdedStates (fun _ => ⟨⟩)
      (fun _ => 0) := by
    refine ⟨hregular, fun i hi bank e e' he he' => ?_⟩
    obtain rfl : i = 0 := by
      change i + 1 < 2 at hi
      omega
    rw [show crowdedStates (0 + 1) = (allocated 0).1.tick from rfl, entry?_tick, he,
      Option.map_some] at he'
    have hdue : (allocated 0).1.isDue = false := by decide +kernel
    rw [← Option.some.inj he', hdue]
    exact le_refl _
  have hvalid : crowdedConfig.validate = .ok () := rfl
  have hsize : crowdedSlots.size = crowdedConfig.tables.length := rfl
  obtain ⟨hscan, hprogress⟩ := allocation_scans (P := SignOnly) hvalid hsize (some 0) true
  have hfirst := hregular 0 (by decide)
  exact ⟨hvalid, hsize, ⟨hfirst, hscan crowded hfirst ⟨⟩ 0⟩, hattempts, by decide +kernel,
    hprogress (by decide) crowdedStates _ _ hattempts⟩

end BranchPrediction
