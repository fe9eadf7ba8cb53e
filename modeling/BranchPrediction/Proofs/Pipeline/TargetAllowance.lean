import BranchPrediction.Proofs.Learning.IttageLesson
import BranchPrediction.Proofs.Pipeline.Provenance
import BranchPrediction.Proofs.Safety.Lookups
import Mathlib.Algebra.BigOperators.Ring.Finset
import Mathlib.Algebra.Order.BigOperators.Group.Finset

/-!
# The mistakes that a constant target can still cost

An indirect jump or call that keeps its slots and always goes to the same target is mispredicted a
bounded number of times, whatever the tables hold at first.  What is still possible at any time is
its allowance (`Ittage.allowance`).

As long as no table answers, every round is a mistake and tries to allocate: either an entry is
written, or the candidates lose usefulness, of which there is only so much at the slots of the
branch.  Once a table answers, the branch keeps a longest match.  If that stores another target, its
confidence drains until it takes the right one (`Belief.debt`).  If it stores the right one, only
one mistake is left: the entry may be fresh and defer to an alternate that stores another target,
but then it is confirmed, and is fresh no more.  A new entry that is allocated meanwhile has the
former longest match for its alternate.

So no commit adds to the allowance, and a mistake uses up a part of it (`Ittage.allowance_learn`).
Draws do not matter to this, since every candidate of an allocation will do.
-/

namespace BranchPrediction

open Ladder

/-! ## Beliefs -/

namespace Belief

variable {b : Belief} {bits : Nat} {target : UInt64}

/-- The mistakes that a longest match with this belief may still make about a branch that goes to
`target`, when its alternate stores another target or not (`misled`). -/
def debt (target : UInt64) (misled : Bool) (b : Belief) : Nat :=
  if b.target? = some target then (decide (b.confidence.value = 0) && misled).toNat
  else max b.confidence.value.toNat 1 + 1

theorem debt_of_right (h : b.target? = some target) (misled : Bool) :
    b.debt target misled = (decide (b.confidence.value = 0) && misled).toNat :=
  if_pos h

/-- The steps that a counter makes, and the last one once more. -/
theorem debt_le (hrange : b.confidence.range = .unsigned bits) (hbits : 0 < bits)
    (misled : Bool) : b.debt target misled ≤ 2 ^ bits := by
  have hmax := b.confidence.le_max
  have hpow := Nat.one_lt_two_pow (Nat.pos_iff_ne_zero.1 hbits)
  rw [hrange] at hmax
  simp only [Counter.Range.unsigned, Nat.one_shiftLeft] at hmax
  unfold debt
  split
  · exact (Bool.toNat_le _).trans (Nat.one_le_two_pow)
  · omega

/-- A belief that was confirmed has no debt. -/
theorem debt_resolve_true (hrange : b.confidence.range = .unsigned bits) (hbits : 0 < bits)
    (hright : b.target? = some target) (misled : Bool) :
    (b.resolve true target).debt target misled = 0 := by
  have hmin := b.confidence.min_le
  have hincrement := b.confidence.value_increment
  have hpow := Nat.one_lt_two_pow (Nat.pos_iff_ne_zero.1 hbits)
  rw [hrange] at hmin hincrement
  simp only [Counter.Range.unsigned, Nat.one_shiftLeft] at hmin hincrement
  have hvalue : b.confidence.increment.value ≠ 0 := by omega
  rw [debt_of_right (b := b.resolve true target) hright]
  change (decide (b.confidence.increment.value = 0) && misled).toNat = 0
  rw [decide_eq_false hvalue]
  rfl

/-- A belief that was not confirmed has paid for a mistake. -/
theorem debt_resolve_false (hrange : b.confidence.range = .unsigned bits)
    (hwrong : b.target? ≠ some target) (misled misled' : Bool) :
    1 + (b.resolve false target).debt target misled' ≤ b.debt target misled := by
  have hmin := b.confidence.min_le
  have hdecrement := b.confidence.value_decrement
  rw [hrange] at hmin hdecrement
  simp only [Counter.Range.unsigned] at hmin hdecrement
  have hbefore : b.debt target misled = max b.confidence.value.toNat 1 + 1 := if_neg hwrong
  rw [hbefore]
  by_cases hzero : b.confidence.decrement.value = 0
  · have hright : (b.resolve false target).target? = some target := if_pos hzero
    have hle := Bool.toNat_le
      (decide ((b.resolve false target).confidence.value = 0) && misled')
    rw [debt_of_right hright]
    omega
  · have hkept : (b.resolve false target).target? ≠ some target := by
      change (if _ then _ else _) ≠ _
      rwa [if_neg hzero]
    have hafter : (b.resolve false target).debt target misled' =
        max b.confidence.decrement.value.toNat 1 + 1 := if_neg hkept
    rw [hafter]
    omega

end Belief

namespace Ittage

/-! ## The allowance -/

section Allowance

variable (target : UInt64) (ladder : Ladder Target) (slots : Array Slot)

def usefulness (bank : Nat) : Nat :=
  (ladder.entry? slots bank).elim 0 (·.useful.value.toNat)

/-- There is an alternate, and it does not store the target. -/
def misleads (alt? : Option Nat) : Bool :=
  alt?.any fun alt => (ladder.belief? slots alt).bind (·.target?) ≠ some target

/-- The mistakes that are still possible about a branch at these slots. -/
def allowance : Nat :=
  match ladder.findMatches slots with
  | (none, _) => ∑ bank ∈ Finset.range ladder.size, usefulness ladder slots bank + 1
  | (some hit, alt?) =>
    (ladder.belief? slots hit).elim 0 (·.debt target (misleads target ladder slots alt?))

variable {target ladder slots}

theorem allowance_of_none {alt? : Option Nat}
    (hnone : ladder.findMatches slots = (none, alt?)) : allowance target ladder slots =
      ∑ bank ∈ Finset.range ladder.size, usefulness ladder slots bank + 1 := by
  rw [allowance, hnone]

theorem allowance_of_some {hit : Nat} {alt? : Option Nat} {b : Belief}
    (hsome : ladder.findMatches slots = (some hit, alt?))
    (hb : ladder.belief? slots hit = some b) :
    allowance target ladder slots = b.debt target (misleads target ladder slots alt?) := by
  rw [allowance, hsome]
  simp only
  rw [hb, Option.elim_some]

end Allowance

theorem exists_belief_of_findMatches {ladder : Ladder Target} {slots : Array Slot} {hit : Nat}
    {alt? : Option Nat} (hsome : ladder.findMatches slots = (some hit, alt?)) :
    ∃ e, ladder.entry? slots hit = some e ∧ ladder.belief? slots hit = some e.belief := by
  rcases ladder.findMatches_cases slots with ⟨hnone, -⟩ | ⟨hit', _, hsome', hmatch, -⟩
  · cases hsome.symm.trans hnone
  · obtain ⟨rfl, -⟩ := Prod.mk.inj (hsome.symm.trans hsome')
      |>.imp Option.some.inj id
    obtain ⟨e, -, he, -⟩ := (ladder.isMatch_eq_true_iff slots).1 hmatch
    exact ⟨e, he, congrArg (Option.map _) he⟩

/-! ## One commit -/

theorem belief_settle (aged : Bool) (e : TaggedEntry Target) :
    (e.settle aged).belief = e.belief := by
  rw [TaggedEntry.belief, TaggedEntry.confidence_settle, TaggedEntry.payload_settle,
    TaggedEntry.belief]

section Commit

variable {r : Record} {target : UInt64} {ladder : Ladder Target}

/-- A commit leaves the beliefs alone of tables that it neither trains nor allocates in. -/
theorem belief?_learn_of_ne {bank : Nat} (hhit : r.lookup.hit? ≠ some bank)
    (hreceived : received? r target ladder ≠ some bank) :
    (learn r target ladder).belief? r.lookup.slots bank =
      ladder.belief? r.lookup.slots bank := by
  unfold belief?
  cases hslot : r.lookup.slots[bank]? with
  | none => simp [ entry?, hslot]
  | some slot =>
      rw [entry?_learn hslot, Option.map_map]
      refine congrArg (Option.map · _) (funext fun e => ?_)
      rw [Function.comp_apply, belief_settle, lesson_of_ne hhit hreceived]
      split
      · rfl
      · rfl

theorem exists_belief_of_received? {bank : Nat} (h : received? r target ladder = some bank) :
    ∃ b, (learn r target ladder).belief? r.lookup.slots bank = some b ∧
      b.target? = some target := by
  obtain ⟨-, -, -, e, he, -⟩ := received?_spec h
  obtain ⟨slot, hslot⟩ := exists_slot_of_entry he
  refine ⟨_, by rw [belief?, entry?_learn hslot, he, Option.map_some, Option.map_some], ?_⟩
  rw [belief_settle, lesson_of_received? h]
  rfl

/-- Only the longest match can gain usefulness, and the tables that were passed over lose some. -/
theorem usefulness_learn_le {c : Ladder.Config} (hregular : ladder.Regular c) {bank : Nat}
    (hhit : r.lookup.hit? ≠ some bank) (hreceived : received? r target ladder ≠ some bank) :
    usefulness (learn r target ladder) r.lookup.slots bank ≤
      if bank ∈ passedOver r target ladder then usefulness ladder r.lookup.slots bank - 1
      else usefulness ladder r.lookup.slots bank := by
  unfold usefulness
  cases hslot : r.lookup.slots[bank]? with
  | none => simp [ entry?, hslot]
  | some slot =>
      rw [entry?_learn hslot]
      cases he : ladder.entry? r.lookup.slots bank with
      | none => simp
      | some e =>
          have hrange := (hregular.useful.holdsAt r.lookup.slots bank e he).range_eq
          have hmin := e.useful.min_le
          have hdecrement := e.useful.value_decrement
          rw [hrange] at hmin hdecrement
          simp only [Counter.Range.unsigned] at hmin hdecrement
          simp only [Option.map_some, Option.elim_some]
          rw [lesson_of_ne hhit hreceived]
          split
          · have hvalue : (e.stepUseful false).useful.value = max (e.useful.value - 1) 0 :=
              hdecrement
            have hsettle := (e.stepUseful false).useful_settle_le ladder.isDue (by omega)
            omega
          · have hsettle := e.useful_settle_le ladder.isDue hmin
            omega

end Commit

/-! ## No commit adds to the allowance -/

section Step

variable {c : Ladder.Config} {p : Ittage} {pc : UInt64} {isConditional : Bool} {r : Record}
  {target : UInt64} {ladder : Ladder Target} {hit : Nat} {alt? : Option Nat}

theorem lookup_selection (hlookup : r.lookup = p.find pc isConditional) :
    r.lookup.slots = p.ladder.slots pc p.history.path ∧
      r.lookup.hit? = (p.ladder.findMatches r.lookup.slots).1 := by
  obtain ⟨hslots, hhit, -⟩ := p.find_selection pc isConditional
  rw [hlookup, hslots]
  exact ⟨rfl, hhit⟩

/-- A longest match that stores the target is overruled only if it is fresh, by an alternate that
stores another one. -/
theorem misled_of_mistake {e : TaggedEntry Target}
    (hsome : p.ladder.findMatches (p.ladder.slots pc p.history.path) = (some hit, alt?))
    (he : p.ladder.entry? (p.ladder.slots pc p.history.path) hit = some e)
    (hright : e.payload.address? = some target)
    (hmistake : (p.find pc isConditional).target? ≠ some target) :
    e.confidence.value = 0 ∧
      misleads target p.ladder (p.ladder.slots pc p.history.path) alt? = true := by
  rw [find_of_some isConditional hsome he] at hmistake
  simp only at hmistake
  split at hmistake
  · next hdefers =>
      simp only [Bool.and_eq_true] at hdefers
      obtain ⟨⟨hfresh, hpresent⟩, -⟩ := hdefers
      obtain ⟨alt, rfl⟩ := Option.isSome_iff_exists.1 hpresent
      refine ⟨of_decide_eq_true hfresh, ?_⟩
      have htarget : (p.ladder.belief? (p.ladder.slots pc p.history.path) alt).bind (·.target?) =
          p.targetOf (p.ladder.slots pc p.history.path) alt := by
        rw [belief?, targetOf]
        cases p.ladder.entry? (p.ladder.slots pc p.history.path) alt with
        | none => rfl
        | some other => rfl
      rw [misleads, Option.any_some, htarget]
      exact decide_eq_true hmistake
  · exact absurd hright hmistake

/-- An allocation that fails where no table answers passes over an entry of some usefulness. -/
theorem exists_passedOver (hregular : p.ladder.Regular c) (hvalid : c.validate = .ok ())
    (hslots : r.lookup.slots = p.ladder.slots pc p.history.path) (hhit : r.lookup.hit? = none)
    (hmistake : r.lookup.target? ≠ some target) (hreceived : received? r target p.ladder = none) :
    ∃ bank ∈ Finset.range p.ladder.size, bank ∈ passedOver r target p.ladder ∧
      0 < usefulness p.ladder r.lookup.slots bank := by
  rw [received?, if_neg hmistake] at hreceived
  have hpassed : passedOver r target p.ladder =
      p.ladder.candidates r.lookup.hit? r.allocationSkip := by
    rw [passedOver, if_neg hmistake, passed_of_recipient?_eq_none hreceived]
  have hscan : 0 < p.ladder.config.maxAllocationScan := by
    rw [hregular.config_eq]
    exact c.maxAllocationScan_pos_of_validate hvalid
  have hsize : 0 < p.ladder.size := by
    rw [hregular.size_eq]
    exact (c.positive_of_validate hvalid).1
  have hsome : p.ladder.candidates r.lookup.hit? r.allocationSkip ≠ [] :=
    (candidates_ne_nil_iff hscan).2 ⟨0, hsize, fun hit h => by cases hhit.symm.trans h⟩
  obtain ⟨bank, hmem⟩ := List.exists_mem_of_ne_nil _ hsome
  have hbank := p.ladder.candidates_lt r.lookup.hit? r.allocationSkip bank hmem
  obtain ⟨he, -⟩ := p.ladder.entry?_slots (Array.getElem?_eq_getElem hbank) pc p.history.path
  rw [← hslots] at he
  have hmin := (hregular.useful.holdsAt r.lookup.slots bank _ he).min_le
  have hstands := List.find?_eq_none.1 hreceived bank hmem
  rw [isFree_iff] at hstands
  refine ⟨bank, Finset.mem_range.2 hbank, hpassed ▸ hmem, ?_⟩
  rw [usefulness, he, Option.elim_some]
  have hpositive : _ ≠ (0 : Int) := fun hzero => hstands ⟨_, he, hzero⟩
  simp only [Counter.Range.unsigned] at hmin
  omega

/-- While no table answers, a failed allocation costs usefulness. -/
theorem allowance_of_failure (hregular : p.ladder.Regular c) (hvalid : c.validate = .ok ())
    (hlookup : r.lookup = p.find pc isConditional)
    (hnone : p.ladder.findMatches (p.ladder.slots pc p.history.path) = (none, none))
    (hreceived : received? r target p.ladder = none) :
    1 + allowance target (learn r target p.ladder) r.lookup.slots ≤
      allowance target p.ladder r.lookup.slots := by
  obtain ⟨hslots, hhit⟩ := lookup_selection hlookup
  have hmistake : r.lookup.target? ≠ some target := by
    rw [hlookup, find_of_none isConditional hnone]
    exact fun h => by cases h
  have hfind : (learn r target p.ladder).findMatches r.lookup.slots = (none, none) := by
    rw [findMatches_learn hhit, hreceived, Option.elim_none, hslots, hnone]
  rw [hslots, hnone] at hhit
  obtain ⟨bank, hbank, hpassed, hpositive⟩ :=
    exists_passedOver hregular hvalid hslots hhit hmistake hreceived
  have hle : ∀ bank, usefulness (learn r target p.ladder) r.lookup.slots bank ≤
      if bank ∈ passedOver r target p.ladder then usefulness p.ladder r.lookup.slots bank - 1
      else usefulness p.ladder r.lookup.slots bank := by
    intro bank
    refine usefulness_learn_le hregular ?_ ?_
    · rw [hhit]
      exact Option.some_ne_none bank |>.symm
    · rw [hreceived]
      exact Option.some_ne_none bank |>.symm
  -- no table gains usefulness, and one that was passed over had some to lose
  have hsum : ∑ bank ∈ Finset.range p.ladder.size,
        usefulness (learn r target p.ladder) r.lookup.slots bank <
      ∑ bank ∈ Finset.range p.ladder.size, usefulness p.ladder r.lookup.slots bank := by
    refine Finset.sum_lt_sum (fun bank _ => (hle bank).trans ?_) ⟨bank, hbank, ?_⟩
    · split
      · exact Nat.sub_le _ _
      · exact le_refl _
    · have hlost := hle bank
      rw [if_pos hpassed] at hlost
      omega
  obtain ⟨-, -, hsize⟩ := slots_learn (r := r) target p.ladder pc p.history.path
  rw [allowance_of_none hfind, hsize, hslots, allowance_of_none hnone, ← hslots]
  omega

/-- A new entry leaves one mistake at most, and none if the former longest match stores the target
or takes it now. -/
theorem allowance_of_received (hlookup : r.lookup = p.find pc isConditional) {bank : Nat}
    (hreceived : received? r target p.ladder = some bank) :
    1 + allowance target (learn r target p.ladder) r.lookup.slots ≤
      allowance target p.ladder r.lookup.slots := by
  obtain ⟨hslots, hhit⟩ := lookup_selection hlookup
  obtain ⟨hmistake, -⟩ := received?_spec hreceived
  have hfind : (learn r target p.ladder).findMatches r.lookup.slots =
      (some bank, r.lookup.hit?) := by
    rw [findMatches_learn hhit, hreceived, Option.elim_some]
  obtain ⟨new, hnew, hright⟩ := exists_belief_of_received? hreceived
  rw [allowance_of_some hfind hnew, Belief.debt_of_right hright]
  rcases p.ladder.findMatches_cases (p.ladder.slots pc p.history.path) with
    ⟨hnone, -⟩ | ⟨hit, alt?, hsome, -⟩
  · rw [hslots, hnone] at hhit
    rw [hhit, hslots, allowance_of_none hnone, misleads, Option.any_none, Bool.and_false]
    exact Nat.le_add_left _ _
  · rw [hslots, hsome] at hhit
    obtain ⟨e, he, hbelief⟩ := exists_belief_of_findMatches hsome
    have hafter := belief?_learn hhit target p.ladder
    have hlongest : r.lookup.longestTarget? = e.belief.target? := by
      rw [hlookup, find_of_some isConditional hsome he]
      rfl
    rw [hslots] at hafter ⊢
    rw [hbelief, Option.map_some, hlongest] at hafter
    rw [hhit, allowance_of_some hsome hbelief, misleads, Option.any_some, hafter]
    -- the former longest match is now the alternate, and can mislead only by another target
    by_cases hstored : e.belief.target? = some target
    · rw [hlookup] at hmistake
      obtain ⟨hzero, hmisled⟩ := misled_of_mistake hsome he hstored hmistake
      have hzero' : e.belief.confidence.value = 0 := hzero
      rw [Belief.debt_of_right hstored, hmisled, hzero', hstored]
      simp [Belief.resolve, hstored]
    · have hle := Bool.toNat_le (decide (new.confidence.value = 0) &&
        decide (((some (e.belief.resolve (e.belief.target? = some target) target)).bind
          (·.target?)) ≠ some target))
      have hbefore : e.belief.debt target (misleads target p.ladder
          (p.ladder.slots pc p.history.path) alt?) = max e.belief.confidence.value.toNat 1 + 1 :=
        if_neg hstored
      rw [hbefore]
      omega

theorem misleads_learn (hdescend : Descend r.lookup.hit? alt?)
    (hreceived : received? r target ladder = none) :
    misleads target (learn r target ladder) r.lookup.slots alt? =
      misleads target ladder r.lookup.slots alt? := by
  cases alt? with
  | none => rfl
  | some alt =>
      have hhit : r.lookup.hit? ≠ some alt := fun h => hdescend.ne h rfl
      rw [misleads, misleads, Option.any_some, Option.any_some, belief?_learn_of_ne hhit (by
        rw [hreceived]
        exact Option.some_ne_none alt |>.symm)]

/-- A longest match pays for the mistakes that it makes, or for the one that its alternate makes in
its place. -/
theorem allowance_of_hit (hregular : p.ladder.Regular c) (hbits : 0 < c.confidenceBits)
    (hlookup : r.lookup = p.find pc isConditional)
    (hsome : p.ladder.findMatches (p.ladder.slots pc p.history.path) = (some hit, alt?))
    (hreceived : received? r target p.ladder = none) :
    (if r.lookup.target? = some target then 0 else 1) +
        allowance target (learn r target p.ladder) r.lookup.slots ≤
      allowance target p.ladder r.lookup.slots := by
  obtain ⟨hslots, hhit⟩ := lookup_selection hlookup
  have hfind : (learn r target p.ladder).findMatches r.lookup.slots = (some hit, alt?) := by
    rw [findMatches_learn hhit, hreceived, Option.elim_none, hslots, hsome]
  rw [hslots, hsome] at hhit
  have hdescend : Descend r.lookup.hit? alt? := by
    have hmatches := p.ladder.descend_findMatches (p.ladder.slots pc p.history.path)
    rw [hsome] at hmatches
    rw [hhit]
    exact hmatches
  obtain ⟨e, he, hbelief⟩ := exists_belief_of_findMatches hsome
  have hrange : e.belief.confidence.range = .unsigned c.confidenceBits :=
    (hregular.confidence.holdsAt _ hit e he).range_eq
  have hlongest : r.lookup.longestTarget? = e.belief.target? := by
    rw [hlookup, find_of_some isConditional hsome he]
    rfl
  have hafter := belief?_learn hhit target p.ladder
  rw [hslots, hbelief, Option.map_some, hlongest, ← hslots] at hafter
  rw [allowance_of_some hfind hafter, misleads_learn hdescend hreceived, hslots,
    allowance_of_some hsome hbelief]
  by_cases hright : e.belief.target? = some target
  · rw [decide_eq_true hright, Belief.debt_resolve_true hrange hbits hright,
      Belief.debt_of_right hright]
    by_cases hcorrect : r.lookup.target? = some target
    · rw [if_pos hcorrect]
      exact Nat.zero_le _
    · rw [hlookup] at hcorrect
      -- the match stores the target and is overruled, for the last time: it gains confidence
      obtain ⟨hzero, hmisled⟩ := misled_of_mistake hsome he hright hcorrect
      have hzero' : e.belief.confidence.value = 0 := hzero
      rw [hlookup, if_neg hcorrect, hmisled, decide_eq_true hzero']
      exact le_refl 1
  · have hpaid := Belief.debt_resolve_false hrange hright
      (misleads target p.ladder (p.ladder.slots pc p.history.path) alt?)
      (misleads target p.ladder (p.ladder.slots pc p.history.path) alt?)
    rw [decide_eq_false hright]
    split
    · omega
    · exact hpaid

/-- No commit of a lookup of the present adds to the allowance, and a mistake uses up a part of
it. -/
theorem allowance_learn (hregular : p.ladder.Regular c) (hvalid : c.validate = .ok ())
    (hlookup : r.lookup = p.find pc isConditional) (target : UInt64) :
    (if r.lookup.target? = some target then 0 else 1) +
        allowance target (learn r target p.ladder) r.lookup.slots ≤
      allowance target p.ladder r.lookup.slots := by
  have hle : ∀ n : Nat, (if r.lookup.target? = some target then 0 else 1) + n ≤ 1 + n := by
    intro n
    split
    · omega
    · exact le_refl _
  cases hreceived : received? r target p.ladder with
  | some bank => exact (hle _).trans (allowance_of_received hlookup hreceived)
  | none =>
      rcases p.ladder.findMatches_cases (p.ladder.slots pc p.history.path) with
        ⟨hnone, -⟩ | ⟨hit, alt?, hsome, -⟩
      · exact (hle _).trans (allowance_of_failure hregular hvalid hlookup hnone hreceived)
      · obtain ⟨hsupports, -⟩ := c.counters_of_validate hvalid
        simp only [Counter.Range.supports, Bool.and_eq_true, decide_eq_true_eq] at hsupports
        exact allowance_of_hit hregular hsupports.1 hlookup hsome hreceived

theorem allowance_le (hregular : p.ladder.Regular c) (hvalid : c.validate = .ok ())
    (target : UInt64) (slots : Array Slot) :
    allowance target p.ladder slots ≤
      c.tables.length * (2 ^ c.usefulBits - 1) + 1 + c.tables.length * 2 ^ c.confidenceBits := by
  have huseful : ∀ bank ∈ Finset.range p.ladder.size,
      usefulness p.ladder slots bank ≤ 2 ^ c.usefulBits - 1 := by
    intro bank _
    unfold usefulness
    cases he : p.ladder.entry? slots bank with
    | none => exact Nat.zero_le _
    | some e =>
        have hmax := (hregular.useful.holdsAt slots bank e he).le_max
        simp only [Counter.Range.unsigned, Nat.one_shiftLeft] at hmax
        rw [Option.elim_some]
        omega
  have hsum : ∑ bank ∈ Finset.range p.ladder.size, usefulness p.ladder slots bank ≤
      c.tables.length * (2 ^ c.usefulBits - 1) := by
    refine (Finset.sum_le_card_nsmul _ _ _ huseful).trans ?_
    rw [Finset.card_range, nsmul_eq_mul, Nat.cast_id, hregular.size_eq]
  rcases p.ladder.findMatches_cases slots with ⟨hnone, -⟩ | ⟨hit, alt?, hsome, -⟩
  · rw [allowance_of_none hnone]
    omega
  · obtain ⟨e, he, hbelief⟩ := exists_belief_of_findMatches hsome
    obtain ⟨hsupports, -⟩ := c.counters_of_validate hvalid
    simp only [Counter.Range.supports, Bool.and_eq_true, decide_eq_true_eq] at hsupports
    have hrange : e.belief.confidence.range = .unsigned c.confidenceBits :=
      (hregular.confidence.holdsAt slots hit e he).range_eq
    have hdebt : e.belief.debt target (misleads target p.ladder slots alt?) ≤
        2 ^ c.confidenceBits := Belief.debt_le hrange hsupports.1 _
    have htables := Nat.le_mul_of_pos_left (2 ^ c.confidenceBits) (c.positive_of_validate hvalid).1
    rw [allowance_of_some hsome hbelief]
    omega

end Step

end Ittage

end BranchPrediction
