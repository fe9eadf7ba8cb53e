import BranchPrediction.Proofs.Learning.Progress
import BranchPrediction.Proofs.Learning.Readings
import BranchPrediction.Proofs.Moments
import Mathlib.Algebra.Order.Ring.Int

/-!
# Aging frees unused entries

A ladder ages its entries at every `usefulResetPeriod`-th tick, wherever a window of ticks starts in
that period.  So the agings among the next `n` ticks are the multiples of the period that the clock
passes (`Ladder.agings`), and `usefulBits * usefulResetPeriod` ticks hold `usefulBits` of them.

As long as nothing raises the usefulness of an entry, it stays below `2 ^ a`, where `a` counts the
agings to come: a tick that ages the entries halves it and is one of them, and no other operation
raises it (`Ladder.isUp_of_raises`).  When all agings of the window are past it is below 1.
-/

namespace BranchPrediction

variable {P : Type}

namespace Ladder

/-! ## Operations -/

inductive Act (P : Type) where
  | allocate (slots : Array Slot) (hit? : Option Nat) (skip : Bool) (payload : P)
    (confidence : Int)
  /-- Any change of an entry that leaves its usefulness alone. -/
  | train (slots : Array Slot) (bank : Nat)
    (change : { f : TaggedEntry P → TaggedEntry P // ∀ e, (f e).useful = e.useful })
  | trainUseful (slots : Array Slot) (bank : Nat) (up : Bool)
  | invalidate (slots : Array Slot) (bank : Nat)
  | trainUseAlt (bank : Nat) (conditional altCorrect : Bool)
  | record (source : ProviderSource) (hit? : Option Nat) (isCorrect : Bool)
  | tick
  | pushed (r : HistoryRegister)
  | popping (r : HistoryRegister)
  | reset

def Act.isTick : Act P → Bool
  | .tick => true
  | _ => false

def Act.isUp (bank : Nat) : Act P → Bool
  | .trainUseful _ bank' up => bank' = bank && up
  | _ => false

section Run

variable [Payload P]

def perform (l : Ladder P) : Act P → Ladder P
  | .allocate slots hit? skip payload confidence =>
    (l.allocate slots hit? skip payload confidence).1
  | .train slots bank change => l.modifyEntry slots bank change.1
  | .trainUseful slots bank up => l.trainUseful slots bank up
  | .invalidate slots bank => l.modifyEntry slots bank TaggedEntry.invalidate
  | .trainUseAlt bank conditional altCorrect => l.trainUseAlt bank conditional altCorrect
  | .record source hit? isCorrect => l.record source hit? isCorrect
  | .tick => l.tick
  | .pushed r => HistoryView.pushed r l
  | .popping r => HistoryView.popping r l
  | .reset => l.reset

/-- The ladder after some operations. -/
def performAll (l : Ladder P) (acts : List (Act P)) : Ladder P :=
  acts.foldl perform l

end Run

def usefulAt (l : Ladder P) (bank index : Nat) : Int :=
  (l.entryAt? bank index).elim 0 (·.useful.value)

def Raises [Payload P] (bank index : Nat) (m : Ladder P × Act P) : Prop :=
  m.1.usefulAt bank index < (m.1.perform m.2).usefulAt bank index

instance [Payload P] (bank index : Nat) (m : Ladder P × Act P) : Decidable (Raises bank index m) :=
  inferInstanceAs (Decidable (_ < _))

/-! ## Clock and ranges -/

theorem steady_clock : Steady fun l : Ladder P => (l.config, l.stats.commits) where
  modifyEntry l slots bank f := by
    unfold Ladder.modifyEntry
    split
    · rfl
    · rfl
  trainUseAlt _ _ _ _ := rfl
  modifyStats _ f hf := congrArg (Prod.mk _) (hf _).2.2

/-- Only ticks and resets move the clock. -/
theorem clock_perform [Payload P] (l : Ladder P) {act : Act P} (hact : act.isTick = false) :
    act = .reset ∨ (l.perform act).config = l.config ∧
      (l.perform act).stats.commits = l.stats.commits := by
  have hsteady := steady_clock (P := P)
  cases act with
  | allocate slots hit? skip payload confidence =>
      exact .inr (Prod.mk.inj (hsteady.allocate l slots hit? skip payload confidence))
  | train slots bank change => exact .inr (Prod.mk.inj (hsteady.modifyEntry l slots bank _))
  | trainUseful slots bank up => exact .inr (Prod.mk.inj (hsteady.modifyEntry l slots bank _))
  | invalidate slots bank => exact .inr (Prod.mk.inj (hsteady.modifyEntry l slots bank _))
  | trainUseAlt => exact .inr ⟨rfl, rfl⟩
  | record source hit? isCorrect =>
      exact .inr ⟨rfl, (l.stats.record_counts source hit? isCorrect).1⟩
  | tick => cases hact
  | pushed => exact .inr ⟨rfl, rfl⟩
  | popping => exact .inr ⟨rfl, rfl⟩
  | reset => exact .inl rfl

theorem config_perform [Payload P] (l : Ladder P) (act : Act P) :
    (l.perform act).config = l.config := by
  cases hact : act.isTick with
  | true =>
      cases act with
      | tick => exact l.config_tick
      | _ => cases hact
  | false =>
      rcases l.clock_perform hact with rfl | ⟨hconfig, -⟩
      · rfl
      · exact hconfig

/-- No operation changes the range of a usefulness counter. -/
theorem entrywise_perform [Payload P] {l : Ladder P} {range : Counter.Range}
    (h : l.Entrywise (·.useful.range = range)) (act : Act P) :
    (l.perform act).Entrywise (·.useful.range = range) := by
  have hlearn : ∀ {slots : Array Slot} {k : Ladder P},
      Learns slots (fun _ f => ∀ e, (f e).useful.range = e.useful.range) l k →
      k.Entrywise (·.useful.range = range) := by
    intro slots k hlearns
    exact @Learns.entrywise P _ (fun _ => True) slots none _ l k hlearns
      (fun _ _ _ _ _ => trivial) (fun _ _ => trivial) (fun _ _ hf e _ he => (hf e).trans he)
      (fun _ he => he) (fun _ hbank => nomatch hbank) h
  cases act with
  | allocate slots hit? skip payload confidence =>
      exact hlearn (Learns.refl.allocate (fun _ up e => e.useful.range_step up)
        (fun _ _ _ => rfl) hit? skip)
  | train slots bank change => exact @hlearn slots _ (.entry .refl fun e => by rw [change.2])
  | trainUseful slots bank up => exact hlearn (.entry .refl fun e => e.useful.range_step up)
  | invalidate slots bank => exact hlearn (.entry .refl fun _ => rfl)
  | trainUseAlt => exact h
  | record => exact h
  | tick => exact @hlearn #[] _ (Learns.refl.tick)
  | pushed r =>
      rw [perform, FoldFamily.pushed_eq]
      exact h.mapFolds _
  | popping r =>
      rw [perform, FoldFamily.popping_eq]
      exact h.mapFolds _
  | reset => exact h.mapTables (fun _ => rfl) fun _ he => he

/-! ## The usefulness of one entry -/

section Useful

variable {l : Ladder P} {bank index : Nat}

theorem Entrywise.of_entryAt? {I : TaggedEntry P → Prop} (h : l.Entrywise I) {e : TaggedEntry P}
    (he : l.entryAt? bank index = some e) : I e := by
  obtain ⟨t, ht, hentry⟩ := Option.bind_eq_some_iff.1 he
  exact h t (Array.mem_of_getElem? ht) e (Array.mem_of_getElem? hentry)

/-- A usefulness is not negative, and fits the width of its counter. -/
theorem usefulAt_bounds {bits : Nat} (h : l.Entrywise (·.useful.range = .unsigned bits))
    (bank index : Nat) :
    0 ≤ l.usefulAt bank index ∧ l.usefulAt bank index < 2 ^ bits := by
  unfold usefulAt
  cases he : l.entryAt? bank index with
  | none => exact ⟨le_refl 0, Int.pow_pos (by decide)⟩
  | some e =>
      have hmin := e.useful.min_le
      have hmax := e.useful.le_max
      rw [h.of_entryAt? he] at hmin hmax
      simp only [Counter.Range.unsigned, Nat.one_shiftLeft] at hmin hmax
      push_cast at hmax
      simp only [Option.elim_some]
      omega

/-- A change that does not raise the entry there does not raise it. -/
theorem usefulAt_amend_le {slots : Array Slot}
    {change : Nat → Slot → TaggedEntry P → TaggedEntry P}
    (h : ∀ slot e, l.entryAt? bank index = some e →
      (change bank slot e).useful.value ≤ e.useful.value) :
    usefulAt (l.amend slots change) bank index ≤ l.usefulAt bank index := by
  have hentry : entryAt? (l.amend slots change) bank index = l.entryAt? bank index ∨
      ∃ slot, entryAt? (l.amend slots change) bank index =
        (l.entryAt? bank index).map (change bank slot) := by
    simp only [ entryAt?, getElem?_amend]
    cases l.tables[bank]? with
    | none => exact .inl rfl
    | some t =>
        cases slots[bank]? with
        | none => exact .inl rfl
        | some slot =>
            simp only [Option.map_some, Option.bind_some]
            rw [TaggedTable.modifyEntry, Array.getElem?_modify]
            split
            · exact .inr ⟨slot, rfl⟩
            · exact .inl rfl
  unfold usefulAt
  rcases hentry with hsame | ⟨slot, hchanged⟩
  · rw [hsame]
  · rw [hchanged]
    cases he : l.entryAt? bank index with
    | none => exact le_refl 0
    | some e => exact h slot e he

/-- The same for the change of one entry. -/
theorem usefulAt_modifyEntry_le {slots : Array Slot} {bank' : Nat}
    {f : TaggedEntry P → TaggedEntry P}
    (h : bank = bank' → ∀ e, l.entryAt? bank index = some e →
      (f e).useful.value ≤ e.useful.value) :
    (l.modifyEntry slots bank' f).usefulAt bank index ≤ l.usefulAt bank index := by
  rw [modifyEntry_eq_amend]
  refine usefulAt_amend_le fun _ e he => ?_
  split
  · next hbank => exact h hbank e he
  · exact le_refl _

theorem usefulAt_tick :
    l.tick.usefulAt bank index =
      if l.isDue then l.usefulAt bank index / 2 else l.usefulAt bank index := by
  rw [usefulAt, entryAt?_tick, usefulAt]
  cases l.entryAt? bank index with
  | none => simp
  | some e =>
      cases l.isDue with
      | true => rfl
      | false => rfl

theorem usefulAt_mapFolds (g : FoldedHistory → FoldedHistory) :
    Ladder.usefulAt (mapFolds g l) bank index = l.usefulAt bank index := by
  have htables : (mapFolds g l).tables[bank]? = (l.tables[bank]?).map (mapFolds g) :=
    Array.getElem?_map
  simp only [usefulAt, entryAt?, htables]
  cases l.tables[bank]? with
  | none => rfl
  | some t => rfl

theorem usefulAt_reset [Payload P] : l.reset.usefulAt bank index = 0 := by
  unfold usefulAt
  cases he : l.reset.entryAt? bank index with
  | none => rfl
  | some e =>
      obtain ⟨e', rfl⟩ := (entrywise_reset l).of_entryAt? he
      rfl

theorem isUp_of_raises [Payload P] {bits : Nat}
    (hrange : l.Entrywise (·.useful.range = .unsigned bits)) {act : Act P}
    (h : Raises bank index (l, act)) : act.isUp bank = true := by
  obtain ⟨hnonneg, -⟩ := usefulAt_bounds hrange bank index
  have hentry : ∀ e, l.entryAt? bank index = some e → 0 ≤ e.useful.value := by
    intro e he
    rwa [usefulAt, he, Option.elim_some] at hnonneg
  -- no other act adds to the usefulness; it is not negative, so that a reset does not add either
  by_contra hup
  refine absurd h (Int.not_lt.2 ?_)
  change (l.perform act).usefulAt bank index ≤ l.usefulAt bank index
  cases act with
  | allocate slots hit? skip payload confidence =>
      rw [perform, allocate_eq]
      change usefulAt (l.amend slots _) bank index ≤ _
      refine usefulAt_amend_le fun slot e he => ?_
      unfold grant
      split
      · exact hentry e he
      · split
        · exact e.useful.decrement_le
        · exact le_refl _
  | train slots bank' change =>
      exact usefulAt_modifyEntry_le fun _ e _ => by rw [change.2]
  | trainUseful slots bank' up =>
      refine usefulAt_modifyEntry_le fun hbank e _ => ?_
      cases up with
      | true => exact absurd (by simp [Act.isUp, hbank]) hup
      | false => exact e.useful.decrement_le
  | invalidate slots bank' => exact usefulAt_modifyEntry_le fun _ e he => hentry e he
  | trainUseAlt => exact le_refl _
  | record => exact le_refl _
  | tick =>
      rw [perform, usefulAt_tick]
      split
      · omega
      · exact le_refl _
  | pushed r => rw [perform, FoldFamily.pushed_eq, usefulAt_mapFolds]
  | popping r => rw [perform, FoldFamily.popping_eq, usefulAt_mapFolds]
  | reset =>
      rw [perform, usefulAt_reset]
      exact hnonneg

end Useful

/-! ## Agings to come -/

/-- The agings among the next `ticks` ticks: the multiples of the period that the clock passes. -/
def agings (l : Ladder P) (ticks : Nat) : Nat :=
  (l.stats.commits + ticks) / l.config.usefulResetPeriod -
    l.stats.commits / l.config.usefulResetPeriod

/-- Whole periods hold as many agings, wherever in a period they start. -/
theorem le_agings (l : Ladder P) (hperiod : 0 < l.config.usefulResetPeriod) {periods ticks : Nat}
    (h : periods * l.config.usefulResetPeriod ≤ ticks) : periods ≤ l.agings ticks := by
  have hle : (l.stats.commits + periods * l.config.usefulResetPeriod) / l.config.usefulResetPeriod ≤
      (l.stats.commits + ticks) / l.config.usefulResetPeriod :=
    Nat.div_le_div_right (by omega)
  rw [Nat.add_mul_div_right _ _ hperiod] at hle
  unfold agings
  omega

theorem agings_tick (l : Ladder P) (ticks : Nat) :
    l.agings (ticks + 1) = l.isDue.toNat + l.tick.agings ticks := by
  have hcommits : l.tick.stats.commits = l.stats.commits + 1 := by
    simp only [tick]
    split
    · rfl
    · rfl
  have hle : (l.stats.commits + 1) / l.config.usefulResetPeriod ≤
      (l.stats.commits + 1 + ticks) / l.config.usefulResetPeriod :=
    Nat.div_le_div_right (by omega)
  have hdiv : (l.stats.commits + 1) / l.config.usefulResetPeriod = _ := Nat.succ_div
  have hdue : l.isDue = decide (l.config.usefulResetPeriod ∣ l.stats.commits + 1) := by
    simp only [isDue, Nat.dvd_iff_mod_eq_zero]
  rw [agings, agings, l.config_tick, hcommits, hdue,
    show l.stats.commits + (ticks + 1) = l.stats.commits + 1 + ticks by omega]
  by_cases hdvd : l.config.usefulResetPeriod ∣ l.stats.commits + 1
  · rw [if_pos hdvd] at hdiv
    simp only [hdvd, decide_true, Bool.toNat_true]
    omega
  · rw [if_neg hdvd] at hdiv
    simp only [hdvd, decide_false, Bool.toNat_false]
    omega

/-! ## Runs -/

section Runs

variable [Payload P] {bank index : Nat}

theorem performAll_cons (l : Ladder P) (act : Act P) (rest : List (Act P)) :
    l.performAll (act :: rest) = (l.perform act).performAll rest :=
  rfl

theorem config_performAll (l : Ladder P) (acts : List (Act P)) :
    (l.performAll acts).config = l.config := by
  induction acts generalizing l with
  | nil => rfl
  | cons act rest ih => rw [performAll_cons, ih, config_perform]

theorem entrywise_performAll {range : Counter.Range} {l : Ladder P}
    (h : l.Entrywise (·.useful.range = range)) (acts : List (Act P)) :
    (l.performAll acts).Entrywise (·.useful.range = range) := by
  induction acts generalizing l with
  | nil => exact h
  | cons act rest ih => exact ih (entrywise_perform h act)

/-- An operation that does not raise an entry keeps it below what the agings to come will halve
away. -/
theorem usefulAt_perform_lt {l : Ladder P} {bits : Nat}
    (hrange : l.Entrywise (·.useful.range = .unsigned bits)) {act : Act P}
    (hkept : act.isUp bank = true → ¬ Raises bank index (l, act)) {ticks : Nat}
    (h : l.usefulAt bank index < 2 ^ l.agings (ticks + act.isTick.toNat)) :
    (l.perform act).usefulAt bank index < 2 ^ (l.perform act).agings ticks := by
  have hle : (l.perform act).usefulAt bank index ≤ l.usefulAt bank index :=
    Int.not_lt.1 fun hraises => hkept (isUp_of_raises hrange hraises) hraises
  cases hact : act.isTick with
  | true =>
      obtain rfl : act = .tick := by
        cases act with
        | tick => rfl
        | _ => cases hact
      rw [hact, Bool.toNat_true, agings_tick] at h
      rw [perform] at hle ⊢
      rw [usefulAt_tick] at hle ⊢
      cases hdue : l.isDue with
      | true =>
          rw [hdue, Bool.toNat_true, Nat.add_comm, Int.pow_succ] at h
          simp only [if_true]
          omega
      | false =>
          rw [hdue, Bool.toNat_false, Nat.zero_add] at h
          exact h
  | false =>
      rw [hact, Bool.toNat_false, Nat.add_zero] at h
      rcases l.clock_perform hact with rfl | ⟨hconfig, hcommits⟩
      · rw [perform, usefulAt_reset]
        exact Int.pow_pos (by decide)
      · rw [agings, hconfig, hcommits]
        exact hle.trans_lt h

/-- At the end of a run that does not raise an entry, no usefulness is left of what the agings of
the run can halve away. -/
theorem usefulAt_performAll_lt_one {l : Ladder P} {bits : Nat}
    (hrange : l.Entrywise (·.useful.range = .unsigned bits)) {acts : List (Act P)}
    (hkept : ∀ m ∈ moments perform l acts, m.2.isUp bank = true → ¬ Raises bank index m)
    (h : l.usefulAt bank index < 2 ^ l.agings (acts.countP Act.isTick)) :
    (l.performAll acts).usefulAt bank index < 1 := by
  induction acts generalizing l with
  | nil =>
      have hnone : l.agings 0 = 0 := Nat.sub_self _
      rwa [List.countP_nil, hnone, Int.pow_zero] at h
  | cons act rest ih =>
      rw [moments_cons] at hkept
      obtain ⟨hfirst, hrest⟩ := List.forall_mem_cons.1 hkept
      have hcount : (act :: rest).countP Act.isTick =
          rest.countP Act.isTick + act.isTick.toNat := by
        rw [List.countP_cons]
        cases act.isTick with
        | true => rfl
        | false => rfl
      rw [hcount] at h
      rw [performAll_cons]
      exact ih (entrywise_perform hrange act) hrest (usefulAt_perform_lt hrange hfirst h)

end Runs

end Ladder

open Ladder

/-- Aging frees every unused entry.  Take any ladder in use and any run of operations from there on,
with at least `usefulBits * usefulResetPeriod` ticks among them.  If no step up raises the
usefulness of an entry during the run, then the entry has no usefulness left at its end, wherever in
a period the run starts and whatever else it does. -/
theorem unused_entries_freed [Payload P] {c : Ladder.Config} (hvalid : c.validate = .ok ())
    (past window : List (Act P)) (bank index : Nat)
    (hticks : c.usefulBits * c.usefulResetPeriod ≤ window.countP Act.isTick)
    (hkept : ∀ m ∈ moments perform ((blank c).performAll past) window,
      m.2.isUp bank = true → ¬ Raises bank index m) :
    ∀ e, (((blank c).performAll past).performAll window).entryAt? bank index = some e →
      e.useful.value = 0 := by
  intro e he
  obtain ⟨-, -, hperiod⟩ := c.positive_of_validate hvalid
  have hconfig : ((blank c : Ladder P).performAll past).config = c :=
    config_performAll _ past
  have hblank : (blank c : Ladder P).Entrywise (·.useful.range = .unsigned c.usefulBits) :=
    (entrywise_of_reset (reset_blank c)).mono fun _ he => he.2
  have hrange := entrywise_performAll hblank past
  obtain ⟨-, hstart⟩ := usefulAt_bounds hrange bank index
  have hagings : c.usefulBits ≤ ((blank c : Ladder P).performAll past).agings
      (window.countP Act.isTick) :=
    le_agings _ (by rw [hconfig]; omega) (by rwa [hconfig])
  have hpow : (2 : Int) ^ c.usefulBits ≤ 2 ^ ((blank c : Ladder P).performAll past).agings
      (window.countP Act.isTick) := by
    exact_mod_cast Nat.pow_le_pow_right (by decide) hagings
  have hless := usefulAt_performAll_lt_one hrange hkept (hstart.trans_le hpow)
  have hend := (usefulAt_bounds (entrywise_performAll hrange window) bank index).1
  rw [usefulAt, he, Option.elim_some] at hless hend
  omega

namespace Ladder

/-- The tables of the crowded ladder, with two bits of usefulness that are halved every other
tick. -/
def agingConfig : Config :=
  { crowdedConfig with usefulBits := 2, usefulResetPeriod := 2 }

/-- An entry of the second table becomes as useful as it can, in the middle of a period. -/
def praised : List (Act SignOnly) :=
  let praise := .trainUseful crowdedSlots 1 true
  [praise, .tick, praise, .tick, praise, praise, .tick]

/-- Four ticks, with an allocation that passes over the entry and praise for another one. -/
def fourTicks : List (Act SignOnly) :=
  [.tick, .trainUseful #[⟨0, 1⟩, ⟨0, 2⟩] 1 true, .tick, .allocate crowdedSlots (some 0) false ⟨⟩ 0,
    .record .fallback none true, .tick, .tick]

end Ladder

/-- The entry has usefulness 3 before four ticks and none after them. -/
theorem praised_entry_freed :
    let start := (blank agingConfig : Ladder SignOnly).performAll praised
    agingConfig.validate = .ok () ∧ 2 * 2 ≤ fourTicks.countP Act.isTick ∧
      (∀ m ∈ moments perform start fourTicks, m.2.isUp 1 = true → ¬ Raises 1 1 m) ∧
      start.usefulAt 1 1 = 3 ∧ ((start.performAll fourTicks).entryAt? 1 1).isSome = true ∧
      ∀ e, (start.performAll fourTicks).entryAt? 1 1 = some e → e.useful.value = 0 := by
  intro start
  have hticks : 2 * 2 ≤ fourTicks.countP Act.isTick := by decide
  have hkept : ∀ m ∈ moments perform start fourTicks, m.2.isUp 1 = true → ¬ Raises 1 1 m := by
    decide +kernel
  exact ⟨rfl, hticks, hkept, by decide +kernel, by decide +kernel,
    unused_entries_freed (c := agingConfig) rfl praised fourTicks 1 1 hticks hkept⟩

end BranchPrediction
