import BranchPrediction.Proofs.Learning.Footprint

/-!
# How often TAGE can be wrong about a constant branch

A branch that always goes the same way, with the same history, is mispredicted a bounded number of
times, whatever else the pipeline acted on and however often the entries age.

The bound comes from an allowance (`Tage.allowance`).  The counter that answers is owed the steps
that it still lacks (`Counter.lag`); a fresh longest match that is right may still be overruled as
often as its use-alt-on-new counter lacks steps; and every table past the longest match holds a
*share* for the entry that may be allocated there.  A round that ends in a mistake uses up a part of
the allowance, and no round adds to it (`Tage.allowance_round`): either a counter is trained that
was on the wrong side, or the use-alt-on-new counter was and steps down, or a new entry takes the
place of the longest match and the share of its table is given up.  Aging is about usefulness, which
the allowance does not look at.
-/

namespace BranchPrediction

/-! ## Counters -/

namespace Counter

/-- The steps that a counter lacks until it predicts a direction. -/
def lag (c : Counter) : Direction → Nat
  | .taken => (c.range.mid - c.value).toNat
  | .notTaken => (c.value - c.range.mid + 1).toNat

theorem predict_eq_taken_iff (c : Counter) : c.predict = .taken ↔ c.range.mid ≤ c.value := by
  rw [predict, Direction.ofBool_eq_taken_iff, decide_eq_true_iff]

theorem predict_eq_notTaken_iff (c : Counter) :
    c.predict = .notTaken ↔ c.value < c.range.mid := by
  rw [predict, Direction.ofBool_eq_notTaken_iff, decide_eq_false_iff_not, Int.not_le]

theorem lag_eq_zero_iff (c : Counter) (o : Direction) : c.lag o = 0 ↔ c.predict = o := by
  cases o with
  | taken =>
      rw [predict_eq_taken_iff]
      simp only [lag]
      omega
  | notTaken =>
      rw [predict_eq_notTaken_iff]
      simp only [lag]
      omega

/-- Both directions have values in the range. -/
def Range.IsSplit (range : Range) : Prop :=
  range.min < range.mid ∧ range.mid ≤ range.max

theorem Range.isSplit_signed (bits : Nat) : (signed bits).IsSplit := by
  have hpow := Nat.two_pow_pos (bits - 1)
  simp only [IsSplit, signed, Nat.one_shiftLeft]
  omega

theorem Range.isSplit_unsigned {bits : Nat} (hbits : 0 < bits) : (unsigned bits).IsSplit := by
  have hpow := Nat.two_pow_pos (bits - 1)
  have hdouble := Nat.two_pow_pred_add_two_pow_pred hbits
  simp only [IsSplit, unsigned, Nat.one_shiftLeft]
  omega

theorem lag_train {c : Counter} (hsplit : c.range.IsSplit) (o : Direction) :
    (c.train o).lag o = c.lag o - 1 := by
  obtain ⟨hmin, hmax⟩ := hsplit
  have hincrement := c.value_increment
  have hdecrement := c.value_decrement
  have hle := c.le_max
  have hge := c.min_le
  cases o with
  | taken =>
      change (c.increment.range.mid - c.increment.value).toNat = _
      rw [range_increment]
      simp only [lag]
      omega
  | notTaken =>
      change (c.decrement.value - c.decrement.range.mid + 1).toNat = _
      rw [range_decrement]
      simp only [lag]
      omega

theorem lag_le_of_signed {c : Counter} {bits : Nat} (h : c.range = .signed bits) (o : Direction) :
    c.lag o ≤ 2 ^ (bits - 1) := by
  have hle := c.le_max
  have hge := c.min_le
  cases o with
  | taken =>
      simp only [lag, h, Range.signed, Nat.one_shiftLeft] at hle hge ⊢
      omega
  | notTaken =>
      simp only [lag, h, Range.signed, Nat.one_shiftLeft] at hle hge ⊢
      omega

theorem lag_le_of_unsigned {c : Counter} {bits : Nat} (h : c.range = .unsigned bits)
    (hbits : 0 < bits) (o : Direction) : c.lag o ≤ 2 ^ (bits - 1) := by
  have hle := c.le_max
  have hge := c.min_le
  have hdouble := Nat.two_pow_pred_add_two_pow_pred hbits
  cases o with
  | taken =>
      simp only [lag, h, Range.unsigned, Nat.one_shiftLeft] at hle hge ⊢
      omega
  | notTaken =>
      simp only [lag, h, Range.unsigned, Nat.one_shiftLeft] at hle hge ⊢
      omega

end Counter

theorem Bimodal.counter_train (t : Bimodal) (index : Nat) (direction : Direction) :
    (t.train index direction).counter index = (t.counter index).train direction := by
  rcases t with ⟨config, counters, counters_size⟩
  simp only [train, counter, Array.size_modify, Array.getElem_modify, if_true]

open Ladder

namespace Tage

/-! ## Predictions -/

section Predictions

variable (t : Tage) {pc : UInt64} {path : PathHistory} (conditional : Bool)

theorem predict_of_none (hnone : t.ladder.findMatches (t.ladder.slots pc path) = (none, none)) :
    let p := t.predict pc path conditional
    p.outcome = (t.base.counter (t.base.index pc)).predict ∧ p.pseudoNew = false := by
  simp only [predict, hnone]
  exact ⟨rfl, trivial⟩

/-- The longest match predicts, unless it is fresh and defers to the alternate. -/
theorem predict_of_some {hit : Nat} {alt? : Option Nat} {e : TaggedEntry SignOnly}
    (hsome : t.ladder.findMatches (t.ladder.slots pc path) = (some hit, alt?))
    (he : t.ladder.entry? (t.ladder.slots pc path) hit = some e) :
    let p := t.predict pc path conditional
    p.longestOutcome = e.confidence.predict ∧ p.pseudoNew = e.isPseudoNew ∧
      p.conditional = conditional ∧
      p.outcome = if e.isPseudoNew && t.ladder.prefersAlt hit conditional then p.altOutcome
        else e.confidence.predict := by
  simp only [predict, hsome, he]
  split
  · exact ⟨rfl, rfl, rfl, rfl⟩
  · exact ⟨rfl, rfl, rfl, rfl⟩

/-- A longest match that is right is overruled only if it is fresh, by an alternate that is wrong
and is preferred. -/
theorem overruled_of_mistake {hit : Nat} {alt? : Option Nat} {e : TaggedEntry SignOnly}
    {o : Direction}
    (hsome : t.ladder.findMatches (t.ladder.slots pc path) = (some hit, alt?))
    (he : t.ladder.entry? (t.ladder.slots pc path) hit = some e)
    (hright : e.confidence.predict = o)
    (hmistake : (t.predict pc path conditional).outcome ≠ o) :
    (t.predict pc path conditional).pseudoNew = true ∧
      (t.predict pc path conditional).altOutcome ≠ o ∧
      t.ladder.prefersAlt hit conditional = true := by
  obtain ⟨-, hnew, -, houtcome⟩ := t.predict_of_some conditional hsome he
  rw [houtcome] at hmistake
  split at hmistake
  · next hdefers =>
      obtain ⟨hfresh, hprefers⟩ := Bool.and_eq_true_iff.1 hdefers
      exact ⟨hnew.trans hfresh, hmistake, hprefers⟩
  · exact absurd hright hmistake

end Predictions

/-! ## Rounds -/

structure Choice where
  finalOutcome : Direction
  skip : Bool
  deriving DecidableEq, Repr

section Rounds

variable (pc : UInt64) (path : PathHistory) (conditional : Bool) (o : Direction)

/-- One round: predict the branch, and commit that prediction. -/
def round (t : Tage) (choice : Choice) : Tage :=
  t.commit (t.predict pc path conditional) o choice.finalOutcome choice.skip

/-- The number of rounds that predict something else than `o`. -/
def mistakes (t : Tage) : List Choice → Nat
  | [] => 0
  | choice :: rest =>
    (if (t.predict pc path conditional).outcome = o then 0 else 1) +
      mistakes (t.round pc path conditional o choice) rest

/-- What every table past the longest match holds for an entry that may be allocated there: the
steps that a longest match can lack, and those of its use-alt-on-new counter. -/
def share (c : Ladder.Config) : Nat :=
  2 ^ (c.confidenceBits - 1) + 2 ^ (c.useAltBits - 1)

/-- How often a longest match may still be overruled once it is right. -/
def deference (t : Tage) (hit : Nat) : Nat :=
  (t.ladder.useAlt[t.ladder.useAltIndex hit conditional]?).elim 0 (·.lag .notTaken)

/-- The mistakes that a longest match may still make. -/
def debtOf (t : Tage) (hit : Nat) (e : TaggedEntry SignOnly) : Nat :=
  e.confidence.lag o +
    if e.confidence.predict = o then t.deference conditional hit
    else 2 ^ (t.ladder.config.useAltBits - 1)

/-- The mistakes that the counter which answers may still make. -/
def debt (t : Tage) : Option Nat → Nat
  | none => (t.base.counter (t.base.index pc)).lag o
  | some hit =>
    (t.ladder.entry? (t.ladder.slots pc path) hit).elim 0 (t.debtOf conditional o hit)

/-- The mistakes that are still possible. -/
def allowance (t : Tage) : Nat :=
  let hit? := (t.ladder.findMatches (t.ladder.slots pc path)).1
  t.debt pc path conditional o hit? + (t.ladder.size - past hit?) * share t.ladder.config

end Rounds

/-! ## Bounds -/

/-- A new counter is weak, in the direction of the branch that it was allocated for. -/
theorem predict_set_initialConfidence {k : Counter} {bits : Nat} (h : k.range = .signed bits)
    (o : Direction) : (k.set (initialConfidence o)).predict = o := by
  have hpow := Nat.two_pow_pos (bits - 1)
  have hvalue := k.value_set (initialConfidence o)
  have hrange := k.range_set (initialConfidence o)
  rw [h] at hvalue hrange
  simp only [Counter.Range.signed, Nat.one_shiftLeft] at hvalue
  cases o with
  | taken =>
      rw [Counter.predict_eq_taken_iff, hrange]
      simp only [initialConfidence, Counter.Range.signed] at hvalue ⊢
      omega
  | notTaken =>
      rw [Counter.predict_eq_notTaken_iff, hrange]
      simp only [initialConfidence, Counter.Range.signed] at hvalue ⊢
      omega

theorem share_add_le {first bank tables : Nat} (hfirst : first ≤ bank) (hbank : bank < tables)
    (share : Nat) : share + (tables - past (some bank)) * share ≤ (tables - first) * share := by
  have hcount : tables - past (some bank) + 1 ≤ tables - first := by
    simp only [past, Option.elim_some]
    omega
  calc share + (tables - past (some bank)) * share
      = (tables - past (some bank) + 1) * share := by rw [Nat.add_one_mul, Nat.add_comm]
    _ ≤ (tables - first) * share := Nat.mul_le_mul_right share hcount

theorem counterBits_pos {base : Bimodal.Config} (hbase : base.validate = .ok ()) :
    0 < base.counterBits := by
  obtain ⟨-, hsupports⟩ := base.widths_of_validate hbase
  simp only [Counter.Range.supports, Bool.and_eq_true, decide_eq_true_eq] at hsupports
  exact hsupports.1

section Bounds

variable {base : Bimodal.Config} {c : Ladder.Config} {t : Tage} (ht : t.Regular base c)
  (conditional : Bool)

include ht

theorem deference_le (hit : Nat) :
    t.deference conditional hit ≤ 2 ^ (t.ladder.config.useAltBits - 1) := by
  unfold deference
  cases hcounter : t.ladder.useAlt[t.ladder.useAltIndex hit conditional]? with
  | none => exact Nat.zero_le _
  | some k =>
      rw [ht.ladder.config_eq, Option.elim_some]
      exact Counter.lag_le_of_signed
        (ht.ladder.useAlt k (Array.mem_of_getElem? hcounter)).range_eq _

/-- A longest match that is overruled has a use-alt-on-new counter that can step down. -/
theorem deference_pos {hit : Nat} (hprefers : t.ladder.prefersAlt hit conditional = true) :
    0 < t.deference conditional hit := by
  unfold prefersAlt at hprefers
  unfold deference
  split at hprefers
  · next k hk =>
      have hrange := (ht.ladder.useAlt k (Array.mem_of_getElem? hk)).range_eq
      have hvalue : 0 ≤ k.value := of_decide_eq_true hprefers
      rw [hk, Option.elim_some]
      simp only [Counter.lag, hrange, Counter.Range.signed]
      omega
  · cases hprefers

theorem range_of_entry {slots : Array Slot} {bank : Nat} {e : TaggedEntry SignOnly}
    (he : t.ladder.entry? slots bank = some e) : e.confidence.range = .signed c.confidenceBits :=
  (ht.ladder.confidence.holdsAt slots bank e he).range_eq

theorem isSplit_of_entry {slots : Array Slot} {bank : Nat} {e : TaggedEntry SignOnly}
    (he : t.ladder.entry? slots bank = some e) : e.confidence.range.IsSplit := by
  rw [range_of_entry ht he]
  exact Counter.Range.isSplit_signed _

theorem debtOf_le (o : Direction) {slots : Array Slot} {hit : Nat} {e : TaggedEntry SignOnly}
    (he : t.ladder.entry? slots hit = some e) :
    t.debtOf conditional o hit e ≤ share t.ladder.config := by
  have hlag := Counter.lag_le_of_signed (range_of_entry ht he) o
  have hdeference := deference_le ht conditional hit
  rw [← ht.ladder.config_eq] at hlag
  unfold debtOf share
  split
  · omega
  · omega

theorem range_counter (index : Nat) :
    (t.base.counter index).range = .unsigned base.counterBits :=
  (ht.base.counters _ (Array.getElem_mem _)).range_eq

theorem allowance_le (hbase : base.validate = .ok ()) (pc : UInt64) (path : PathHistory)
    (o : Direction) :
    t.allowance pc path conditional o ≤
      2 ^ (base.counterBits - 1) + c.tables.length * share c := by
  unfold allowance
  simp only
  rcases t.ladder.findMatches_cases (t.ladder.slots pc path) with
    ⟨hnone, -⟩ | ⟨hit, alt?, hsome, hmatch, -⟩
  · rw [hnone, ht.ladder.size_eq, ht.ladder.config_eq]
    exact Nat.add_le_add
      (Counter.lag_le_of_unsigned (range_counter ht _) (counterBits_pos hbase) o) (le_refl _)
  · obtain ⟨e, slot, he, -, -⟩ := (t.ladder.isMatch_eq_true_iff _).1 hmatch
    have hdebt := debtOf_le ht conditional o he
    have hheld := share_add_le (Nat.zero_le hit) (lt_size_of_entry he) (share t.ladder.config)
    rw [hsome, debt, he, Option.elim_some]
    rw [← ht.ladder.size_eq, ← ht.ladder.config_eq]
    simp only [Nat.sub_zero] at hheld ⊢
    exact le_trans (by omega) (Nat.le_add_left _ _)

end Bounds

/-! ## Rounds use up the allowance -/

section Step

variable {base : Bimodal.Config} {c : Ladder.Config} {t : Tage} (ht : Reachable base c t)
  (hbase : base.validate = .ok ()) {pc : UInt64} {path : PathHistory} {conditional : Bool}
  {o : Direction}

theorem size_commit {p : Prediction} (hdescend : Descend p.hit? p.alt?)
    (outcome finalOutcome : Direction) (skip : Bool) :
    let u := t.commit p outcome finalOutcome skip
    u.ladder.config = t.ladder.config ∧ u.ladder.size = t.ladder.size := by
  simp only
  rw [ladder_commit outcome finalOutcome skip hdescend, config_tick, size_tick]
  exact ⟨rfl, t.ladder.size_amend p.slots _⟩

theorem slots_commit {p : Prediction} (hdescend : Descend p.hit? p.alt?)
    (outcome finalOutcome : Direction) (skip : Bool) (pc : UInt64) (path : PathHistory) :
    let u := t.commit p outcome finalOutcome skip
    u.ladder.slots pc path = t.ladder.slots pc path ∧ u.base.index pc = t.base.index pc := by
  simp only
  rw [ladder_commit outcome finalOutcome skip hdescend, slots_tick]
  refine ⟨t.ladder.slots_amend p.slots _ pc path, ?_⟩
  rcases t.base_commit p outcome finalOutcome skip with hsame | htrained
  · rw [hsame]
  · rw [htrained]
    rfl

theorem hit?_predict (t : Tage) (pc : UInt64) (path : PathHistory) (conditional : Bool) :
    let p := t.predict pc path conditional
    p.slots = t.ladder.slots pc path ∧ p.hit? = (t.ladder.findMatches p.slots).1 ∧
      Descend p.hit? p.alt? := by
  obtain ⟨hslots, hhit, halt, -⟩ := t.predict_selection pc path conditional
  refine ⟨hslots, hslots ▸ hhit, ?_⟩
  rw [hhit, halt]
  exact t.ladder.descend_findMatches _

include ht

/-- A round that writes a new entry uses up the share of its table. -/
theorem allowance_of_received {choice : Choice} {bank : Nat}
    (hreceived : t.received? (t.predict pc path conditional) o choice.finalOutcome choice.skip =
      some bank) :
    1 + (t.round pc path conditional o choice).allowance pc path conditional o ≤
      t.allowance pc path conditional o := by
  obtain ⟨hslots, hhit, hdescend⟩ := hit?_predict t pc path conditional
  have hsizes := size_commit (t := t) hdescend o choice.finalOutcome choice.skip
  have hplaces := slots_commit (t := t) hdescend o choice.finalOutcome choice.skip pc path
  have hregular := (ht.commit (t.predict pc path conditional) o choice.finalOutcome
    choice.skip).regular
  obtain ⟨-, hbank, hpast, old, hold, -⟩ := received?_spec hreceived
  obtain ⟨slot, hslot⟩ := exists_slot_of_entry hold
  unfold round
  set p := t.predict pc path conditional
  set u := t.commit p o choice.finalOutcome choice.skip
  obtain ⟨hconfig, hsize⟩ := hsizes
  obtain ⟨hsame, -⟩ := hplaces
  have hfind : u.ladder.findMatches p.slots = (some bank, p.hit?) := by
    rw [findMatches_commit hhit hdescend, hreceived, Option.elim_some]
  -- the counter of the new entry is on the right side, and so its lag is zero
  obtain ⟨e, he, hconfidence⟩ : ∃ e, u.ladder.entry? p.slots bank = some e ∧
      e.confidence = old.confidence.set (initialConfidence o) := by
    refine ⟨_, (entry?_commit hdescend hslot).trans (by rw [hold, Option.map_some]), ?_⟩
    rw [TaggedEntry.confidence_settle, lesson_of_received? hdescend hreceived]
    rfl
  have hright : e.confidence.predict = o := by
    rw [hconfidence]
    exact predict_set_initialConfidence (range_of_entry ht.regular hold) o
  have hdebt : u.debt pc path conditional o (some bank) = u.deference conditional bank := by
    rw [debt, hsame, ← hslots, he, Option.elim_some, debtOf, if_pos hright,
      (e.confidence.lag_eq_zero_iff o).2 hright, Nat.zero_add]
  have hdeference := deference_le hregular conditional bank
  have hheld := share_add_le hpast hbank (share t.ladder.config)
  have hpow := Nat.two_pow_pos (t.ladder.config.confidenceBits - 1)
  have hshare : share t.ladder.config = 2 ^ (t.ladder.config.confidenceBits - 1) +
      2 ^ (t.ladder.config.useAltBits - 1) := rfl
  have hafter : u.allowance pc path conditional o = u.deference conditional bank +
      (t.ladder.size - past (some bank)) * share t.ladder.config := by
    rw [allowance, hsame, ← hslots, hfind, hdebt, hsize, hconfig]
  have hbefore : (t.ladder.size - past p.hit?) * share t.ladder.config ≤
      t.allowance pc path conditional o := by
    rw [allowance, ← hslots, ← hhit]
    exact Nat.le_add_left _ _
  rw [hconfig] at hdeference
  omega

omit ht

theorem base_commit_of_none {p : Prediction} (hhit : p.hit? = none)
    (outcome finalOutcome : Direction) (skip : Bool) :
    (t.commit p outcome finalOutcome skip).base = t.base.train p.baseIndex outcome := by
  have htrained : ∀ t : Tage, (t.trainCounters p outcome).base =
      t.base.train p.baseIndex outcome := by
    intro t
    unfold trainCounters
    rw [hhit]
    rfl
  change (trainCounters _ p outcome).base = _
  rw [htrained, base_allocate, base_trainUseAlt]
  rfl

include ht

/-- A longest match that was right costs its use-alt-on-new counter a step, if it was fresh and the
alternate was wrong. -/
theorem deference_commit {p : Prediction} {hit : Nat} (hhit : p.hit? = some hit)
    (hdescend : Descend p.hit? p.alt?) (hconditional : p.conditional = conditional)
    (hright : p.longestOutcome = o) (finalOutcome : Direction) (skip : Bool) :
    (t.commit p o finalOutcome skip).deference conditional hit =
      if p.pseudoNew = true ∧ p.altOutcome ≠ o then t.deference conditional hit - 1
      else t.deference conditional hit := by
  obtain ⟨hconfig, hsize⟩ := size_commit (t := t) hdescend o finalOutcome skip
  have hindex : (t.commit p o finalOutcome skip).ladder.useAltIndex hit conditional =
      t.ladder.useAltIndex hit conditional := by
    rw [useAltIndex, hconfig, hsize, useAltIndex]
  have huseAlt : (t.commit p o finalOutcome skip).ladder.useAlt = t.alternated p o := by
    rw [ladder_commit o finalOutcome skip hdescend, useAlt_tick]
    rfl
  have htrains : (p.pseudoNew && p.longestOutcome ≠ p.altOutcome) = true ↔
      p.pseudoNew = true ∧ p.altOutcome ≠ o := by
    rw [hright, Bool.and_eq_true, decide_eq_true_iff, ne_comm]
  rw [deference, hindex, huseAlt, alternated, hhit]
  simp only [htrains]
  split
  · next h =>
      rw [hconditional, Array.getElem?_modify, if_pos rfl, deference]
      cases hcounter : t.ladder.useAlt[t.ladder.useAltIndex hit conditional]? with
      | none => rfl
      | some k =>
          have hsplit : k.range.IsSplit := by
            rw [(ht.regular.ladder.useAlt k (Array.mem_of_getElem? hcounter)).range_eq]
            exact Counter.Range.isSplit_signed _
          rw [decide_eq_false h.2]
          exact Counter.lag_train hsplit .notTaken
  · rfl

theorem debt_of_none (hbase : base.validate = .ok ())
    (hnone : t.ladder.findMatches (t.ladder.slots pc path) = (none, none)) (choice : Choice) :
    (if (t.predict pc path conditional).outcome = o then 0 else 1) +
        (t.round pc path conditional o choice).debt pc path conditional o none ≤
      t.debt pc path conditional o none := by
  obtain ⟨hslots, hhit, hdescend⟩ := hit?_predict t pc path conditional
  obtain ⟨-, -, -, hbaseIndex⟩ := t.predict_selection pc path conditional
  obtain ⟨-, hindex⟩ := slots_commit (t := t) hdescend o choice.finalOutcome choice.skip pc path
  obtain ⟨houtcome, -⟩ := t.predict_of_none conditional hnone
  rw [hslots, hnone] at hhit
  have hsplit : (t.base.counter (t.base.index pc)).range.IsSplit := by
    rw [range_counter ht.regular]
    exact Counter.Range.isSplit_unsigned (counterBits_pos hbase)
  have hlag := Counter.lag_train hsplit o
  have hiff := (t.base.counter (t.base.index pc)).lag_eq_zero_iff o
  unfold debt round
  simp only
  rw [hindex, base_commit_of_none hhit, hbaseIndex, Bimodal.counter_train, hlag, houtcome]
  split
  · omega
  · next hwrong =>
      have hpositive : (t.base.counter (t.base.index pc)).lag o ≠ 0 := fun h => hwrong (hiff.1 h)
      omega

/-- What a round leaves of the debt of a longest match, whose counter it trains. -/
theorem debt_round {hit : Nat} {alt? : Option Nat} {e : TaggedEntry SignOnly}
    (hsome : t.ladder.findMatches (t.ladder.slots pc path) = (some hit, alt?))
    (he : t.ladder.entry? (t.ladder.slots pc path) hit = some e) (choice : Choice) :
    let u := t.round pc path conditional o choice
    u.debt pc path conditional o (some hit) = e.confidence.lag o - 1 +
      if (e.confidence.train o).predict = o then u.deference conditional hit
      else 2 ^ (t.ladder.config.useAltBits - 1) := by
  obtain ⟨hslots, hhit, hdescend⟩ := hit?_predict t pc path conditional
  obtain ⟨hsame, -⟩ := slots_commit (t := t) hdescend o choice.finalOutcome choice.skip pc path
  obtain ⟨hconfig, -⟩ := size_commit (t := t) hdescend o choice.finalOutcome choice.skip
  obtain ⟨slot, hslot⟩ := exists_slot_of_entry he
  have hlag := Counter.lag_train (isSplit_of_entry ht.regular he) o
  rw [← hslots] at hsome he hslot
  rw [hsome] at hhit
  unfold round
  set p := t.predict pc path conditional
  set u := t.commit p o choice.finalOutcome choice.skip
  obtain ⟨e', he', hconfidence⟩ : ∃ e', u.ladder.entry? p.slots hit = some e' ∧
      e'.confidence = e.confidence.train o := by
    refine ⟨_, (entry?_commit hdescend hslot).trans (by rw [he, Option.map_some]), ?_⟩
    rw [TaggedEntry.confidence_settle, confidence_lesson_hit hhit]
  simp only
  rw [debt, hsame, ← hslots, he', Option.elim_some, debtOf, hconfidence, hlag, hconfig]

/-- A longest match that is right pays for the mistakes that its alternate makes in its place. -/
theorem debt_of_right {hit : Nat} {alt? : Option Nat} {e : TaggedEntry SignOnly}
    (hsome : t.ladder.findMatches (t.ladder.slots pc path) = (some hit, alt?))
    (he : t.ladder.entry? (t.ladder.slots pc path) hit = some e)
    (hright : e.confidence.predict = o) (choice : Choice) :
    (if (t.predict pc path conditional).outcome = o then 0 else 1) +
        (t.round pc path conditional o choice).debt pc path conditional o (some hit) ≤
      t.debtOf conditional o hit e := by
  obtain ⟨hslots, hhit, hdescend⟩ := hit?_predict t pc path conditional
  obtain ⟨hlongest, -, hconditional, -⟩ := t.predict_of_some conditional hsome he
  rw [hslots, hsome] at hhit
  have hzero := (e.confidence.lag_eq_zero_iff o).2 hright
  have hstill : (e.confidence.train o).predict = o := by
    rw [← Counter.lag_eq_zero_iff, Counter.lag_train (isSplit_of_entry ht.regular he), hzero]
  have hstep : (t.round pc path conditional o choice).deference conditional hit = _ :=
    deference_commit ht hhit hdescend hconditional (hlongest.trans hright) choice.finalOutcome
      choice.skip
  rw [debt_round ht hsome he, debtOf, if_pos hright, if_pos hstill, hzero, hstep]
  by_cases hmistake : (t.predict pc path conditional).outcome = o
  · rw [if_pos hmistake]
    split
    · omega
    · omega
  · obtain ⟨hnew, halt, hprefers⟩ := t.overruled_of_mistake conditional hsome he hright hmistake
    have hpositive := deference_pos ht.regular conditional hprefers
    rw [if_neg hmistake, if_pos ⟨hnew, halt⟩]
    omega

/-- A longest match that is wrong makes up for a step of its counter. -/
theorem debt_of_wrong {hit : Nat} {alt? : Option Nat} {e : TaggedEntry SignOnly}
    (hsome : t.ladder.findMatches (t.ladder.slots pc path) = (some hit, alt?))
    (he : t.ladder.entry? (t.ladder.slots pc path) hit = some e)
    (hwrong : e.confidence.predict ≠ o) (choice : Choice) :
    1 + (t.round pc path conditional o choice).debt pc path conditional o (some hit) ≤
      t.debtOf conditional o hit e := by
  have hpositive : e.confidence.lag o ≠ 0 :=
    fun hzero => hwrong ((e.confidence.lag_eq_zero_iff o).1 hzero)
  obtain ⟨-, -, hdescend⟩ := hit?_predict t pc path conditional
  obtain ⟨hconfig, -⟩ := size_commit (t := t) hdescend o choice.finalOutcome choice.skip
  have hdeference := deference_le (ht.commit (t.predict pc path conditional) o
    choice.finalOutcome choice.skip).regular conditional hit
  rw [hconfig] at hdeference
  rw [debt_round ht hsome he, debtOf, if_neg hwrong, round]
  split
  · omega
  · omega

/-- A longest match pays for the mistakes that it makes, or for those that its alternate makes in
its place. -/
theorem debt_of_hit {hit : Nat} {alt? : Option Nat} {e : TaggedEntry SignOnly}
    (hsome : t.ladder.findMatches (t.ladder.slots pc path) = (some hit, alt?))
    (he : t.ladder.entry? (t.ladder.slots pc path) hit = some e) (choice : Choice) :
    (if (t.predict pc path conditional).outcome = o then 0 else 1) +
        (t.round pc path conditional o choice).debt pc path conditional o (some hit) ≤
      t.debt pc path conditional o (some hit) := by
  have hbefore : t.debt pc path conditional o (some hit) = t.debtOf conditional o hit e := by
    rw [debt, he, Option.elim_some]
  rw [hbefore]
  by_cases hright : e.confidence.predict = o
  · exact debt_of_right ht hsome he hright choice
  · refine le_trans (Nat.add_le_add_right ?_ _) (debt_of_wrong ht hsome he hright choice)
    split
    · exact Nat.zero_le 1
    · exact le_refl 1

/-- A round that writes no new entry uses up what its mistake costs. -/
theorem allowance_of_not_received (hbase : base.validate = .ok ()) {choice : Choice}
    (hreceived : t.received? (t.predict pc path conditional) o choice.finalOutcome choice.skip =
      none) :
    (if (t.predict pc path conditional).outcome = o then 0 else 1) +
        (t.round pc path conditional o choice).allowance pc path conditional o ≤
      t.allowance pc path conditional o := by
  obtain ⟨hslots, hhit, hdescend⟩ := hit?_predict t pc path conditional
  obtain ⟨hsame, -⟩ := slots_commit (t := t) hdescend o choice.finalOutcome choice.skip pc path
  obtain ⟨hconfig, hsize⟩ := size_commit (t := t) hdescend o choice.finalOutcome choice.skip
  have hfind : (t.round pc path conditional o choice).ladder.findMatches
      (t.ladder.slots pc path) = t.ladder.findMatches (t.ladder.slots pc path) := by
    rw [← hslots]
    unfold round
    rw [findMatches_commit hhit hdescend, hreceived, Option.elim_none]
  have hdebt : (if (t.predict pc path conditional).outcome = o then 0 else 1) +
      (t.round pc path conditional o choice).debt pc path conditional o
        (t.ladder.findMatches (t.ladder.slots pc path)).1 ≤
      t.debt pc path conditional o (t.ladder.findMatches (t.ladder.slots pc path)).1 := by
    rcases t.ladder.findMatches_cases (t.ladder.slots pc path) with
      ⟨hnone, -⟩ | ⟨hit, alt?, hsome, hmatch, -⟩
    · rw [hnone]
      exact debt_of_none ht hbase hnone choice
    · obtain ⟨e, -, he, -⟩ := (t.ladder.isMatch_eq_true_iff _).1 hmatch
      rw [hsome]
      exact debt_of_hit ht hsome he choice
  unfold allowance
  unfold round at hfind hdebt ⊢
  simp only [hsame, hfind, hconfig, hsize]
  omega

/-- No round adds to the allowance, and a mistake uses up a part of it. -/
theorem allowance_round (hbase : base.validate = .ok ()) (pc : UInt64) (path : PathHistory)
    (conditional : Bool) (o : Direction) (choice : Choice) :
    (if (t.predict pc path conditional).outcome = o then 0 else 1) +
        (t.round pc path conditional o choice).allowance pc path conditional o ≤
      t.allowance pc path conditional o := by
  cases hreceived : t.received? (t.predict pc path conditional) o choice.finalOutcome
      choice.skip with
  | none => exact allowance_of_not_received ht hbase hreceived
  | some bank =>
      refine le_trans (Nat.add_le_add_right ?_ _) (allowance_of_received ht hreceived)
      split
      · exact Nat.zero_le 1
      · exact le_refl 1

end Step

/-- However many rounds there are, their mistakes stay within the allowance. -/
theorem mistakes_le_allowance {base : Bimodal.Config} {c : Ladder.Config}
    (hbase : base.validate = .ok ()) (pc : UInt64) (path : PathHistory) (conditional : Bool)
    (o : Direction) (choices : List Choice) {t : Tage} (ht : Reachable base c t) :
    t.mistakes pc path conditional o choices ≤ t.allowance pc path conditional o := by
  induction choices generalizing t with
  | nil => exact Nat.zero_le _
  | cons choice rest ih =>
      have hround := allowance_round ht hbase pc path conditional o choice
      have hrest : (t.round pc path conditional o choice).mistakes pc path conditional o rest ≤
          (t.round pc path conditional o choice).allowance pc path conditional o :=
        ih (ht.commit _ o choice.finalOutcome choice.skip)
      rw [mistakes]
      omega

end Tage

/-- A branch that always goes the same way is mispredicted a bounded number of times.  In any
sequence of rounds that predict the same branch with the same history and commit that prediction
with the same outcome, whatever the pipeline acted on and whether or not allocations skip a table,
the rounds that predict something else are no more than the steps of a base counter and, for each
tagged table, those of an entry and of a use-alt-on-new counter. -/
theorem constant_branch_mistakes_le {base : Bimodal.Config} {c : Ladder.Config}
    (hbase : base.validate = .ok ()) {t : Tage} (ht : Tage.Reachable base c t)
    (pc : UInt64) (path : PathHistory) (conditional : Bool) (o : Direction)
    (choices : List Tage.Choice) :
    t.mistakes pc path conditional o choices ≤
      2 ^ (base.counterBits - 1) +
        c.tables.length * (2 ^ (c.confidenceBits - 1) + 2 ^ (c.useAltBits - 1)) :=
  (Tage.mistakes_le_allowance hbase pc path conditional o choices ht).trans
    (Tage.allowance_le ht.regular conditional hbase pc path o)

/-- A new predictor is wrong twice about a branch that is always taken. -/
theorem takenBranch_mistakes_le :
    let choices := List.replicate 6 (⟨.notTaken, false⟩ : Tage.Choice)
    let t := Tage.blank Tage.smallBase Tage.smallLadder
    Tage.smallBase.validate = .ok () ∧ Tage.Reachable Tage.smallBase Tage.smallLadder t ∧
      t.mistakes 4 (.empty 3) true .taken choices = 2 ∧
      t.mistakes 4 (.empty 3) true .taken choices ≤ 2 ^ (2 - 1) + 3 * (2 ^ (3 - 1) + 2 ^ (4 - 1)) :=
  ⟨rfl, .blank, by decide +kernel,
    constant_branch_mistakes_le rfl .blank 4 (.empty 3) true .taken _⟩

end BranchPrediction
