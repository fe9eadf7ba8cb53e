import BranchPrediction.Proofs.Corrector.Bounds
import BranchPrediction.Proofs.Safety.TageScl

/-!
# When the machine arithmetic of TAGE-SC-L is exact

The checks of a configuration look at one width at a time.  Four places put several of them together
in words of a fixed size, and no check looks at what comes out:

* the amount by which a table shifts an address is the distance of its number from its logarithmic
  size, plus one, and there may be any number of tables (`TaggedTable.hashShift_lt_iff`);
* the longest history and the bits allowed in flight are added as words before they are compared
  with the buffer (`Ladder.Config.buffer_fits_iff`);
* a sum of the corrector has a summand for each of its tables;
* its threshold may start anywhere in 32 bits, and a commit can raise it (`TageScl.kept_paced`).

`arithmetic_in_range` says how far each of them stays in range.  `validation_admits_overflow` has
valid configurations for which a shift, the buffer and the threshold do not.
-/

namespace BranchPrediction

/-! ## Shifts -/

/-- The number of a table must not exceed its logarithmic size by 63. -/
theorem TaggedTable.hashShift_lt_iff {P : Type} {t : TaggedTable P}
    (hlogSize : t.shape.logSize < 31) : t.hashShift < 64 ↔ t.bank < t.shape.logSize + 63 := by
  unfold TaggedTable.hashShift
  omega

/-! ## The history buffer -/

/-- A buffer that was checked fits its contents if and only if their number is a word. -/
theorem Ladder.Config.buffer_fits_iff {c : Ladder.Config} {longest : Nat}
    (hword : c.historyBufferBits < UInt64.size) (h : c.checkHistoryBuffer longest = .ok ()) :
    longest + c.maxInFlightBits < c.historyBufferBits ↔
      longest + c.maxInFlightBits < UInt64.size :=
  ⟨fun hfits => hfits.trans hword, lt_of_checkHistoryBuffer h⟩

/-! ## The threshold -/

/-- After so many commits of conditional branches, the threshold is at most as much above the
configured one. -/
structure Corrector.Paced (commits : Nat) (c : Config) (k : Corrector) : Prop where
  config_eq : k.config = c
  configured : 1 ≤ c.threshold
  one_le : 1 ≤ k.threshold
  le_add : k.threshold ≤ c.threshold + commits

namespace TageScl

def Paced (c : Config) (p : TageScl) : Prop :=
  Option.Rel (Corrector.Paced p.stats.commits) c.corrector? p.corrector?

theorem paced_views {c? : Option Corrector.Config} {commits : Nat} (views : Tage × Option Corrector)
    (h : Option.Rel (Corrector.Paced commits) c? views.2) {moved : Tage × Option Corrector}
    {g : FoldedHistory → FoldedHistory} (hmoved : moved = mapFolds g views) :
    Option.Rel (Corrector.Paced commits) c? moved.2 := by
  rw [hmoved]
  exact rel_map h fun _ _ hpaced => ⟨hpaced.1, hpaced.2, hpaced.3, hpaced.4⟩

theorem kept_paced (c : Config) : Kept (Paced c) where
  apply {p} h r b := by
    change Paced c (apply p r b).1
    obtain ⟨g, -, hviews⟩ : ∃ g, KeepsShape g ∧ (p.appended b).2.2 = mapFolds g p.views :=
      SpeculativeHistory.exists_append_views _ _ _ _ _
    rw [apply_eq]
    exact paced_views p.views h hviews
  undo {p} h r := by
    change Paced c (undo p r).1
    cases hc : r.contribution? with
    | none => rwa [undo_of_none p hc]
    | some contribution =>
        obtain ⟨g, -, hviews⟩ :=
          SpeculativeHistory.exists_rollback_views p.history contribution.checkpoint p.views
        rw [undo_eq p hc]
        exact paced_views p.views h hviews
  conclude {p} h r b := by
    change Paced c (conclude p r b)
    rw [conclude_eq]
    unfold Paced concluded
    split
    · refine rel_map h fun cc k hpaced => ?_
      obtain ⟨hone, hle⟩ := Corrector.threshold_commit hpaced.one_le r.corrector b.taken
      have hadd := hpaced.le_add
      refine ⟨(k.config_commit r.corrector b.taken).trans hpaced.config_eq, hpaced.configured, hone,
        ?_⟩
      simp only [Stats.record]
      omega
    · exact h
  countRepair h := h
  reset {p} h := by
    change Paced c p.reset
    rcases p with ⟨config, tage, loops?, corrector?, history, random, stats⟩
    refine rel_map h fun cc k hpaced => ?_
    obtain rfl := hpaced.config_eq
    exact ⟨rfl, hpaced.configured, hpaced.configured, le_of_eq (Int.add_zero _).symm⟩

theorem paced_build {c : Config} {built : TageScl} (hbuild : c.build = .ok built) :
    Paced c built := by
  obtain ⟨hvalid, -⟩ := build_eq_ok hbuild
  obtain ⟨-, hcorrector⟩ := c.parts_of_validate hvalid
  obtain ⟨-, -, history, -, rfl⟩ := exists_of_build hbuild
  unfold Paced
  cases hc : c.corrector? with
  | none => exact .none
  | some cc =>
      have hthreshold := cc.threshold_of_validate (hcorrector cc hc)
      exact .some ⟨rfl, hthreshold, hthreshold, le_of_eq (Int.add_zero _).symm⟩

/-- What a predictor in use has of its configuration. -/
theorem table_of_reachable {c : Config} {built p : TageScl} (hbuild : c.build = .ok built)
    (hp : Reachable built p) {i : Nat} {t : TaggedTable SignOnly}
    (ht : p.tage.ladder.tables[i]? = some t) : t.bank = i ∧ t.shape.logSize < 31 := by
  obtain ⟨hvalid, -⟩ := build_eq_ok hbuild
  have hregular := ((kept_descends c built).reachable (descends_build hbuild) hp).regular hbuild
  have hi : i < c.ladder.tables.length :=
    (Array.getElem?_eq_some_iff.1 ht).1.trans_eq hregular.ladder.size_eq
  obtain ⟨t', ht', hshape, hbank, -⟩ :=
    hregular.ladder.table i _ (List.getElem?_eq_getElem hi)
  obtain rfl := Option.some.inj (ht.symm.trans ht')
  have hwidths := c.ladder.widths_of_validate (c.parts_of_validate hvalid).1
  exact ⟨hbank, hshape ▸ (hwidths _ (List.getElem_mem hi)).1⟩

end TageScl

/-- How far the machine arithmetic of a predictor in use is exact.  The shift of a table is below 64
if and only if its number does not exceed its logarithmic size by 63.  The buffer holds the longest
history and the bits allowed in flight if and only if their number is a word.  All sums of the
corrector fit into 32 bits, the parts of a sum too, if the number of its tables and the width of its
weights allow for no larger one.  Its threshold does as long as the configured one does with the
number of conditional branches committed since the last reset on top of it. -/
theorem arithmetic_in_range {c : TageScl.Config} {built p : TageScl} (hbuild : c.build = .ok built)
    (hword : c.ladder.historyBufferBits < UInt64.size) (hp : Reachable built p) :
    (∀ (i : Nat) (t : TaggedTable SignOnly), p.tage.ladder.tables[i]? = some t →
      (t.hashShift < 64 ↔ i < t.shape.logSize + 63)) ∧
    (c.longestHistory + c.ladder.maxInFlightBits < c.ladder.historyBufferBits ↔
      c.longestHistory + c.ladder.maxInFlightBits < UInt64.size) ∧
    ∀ (cc : Corrector.Config) (k : Corrector), c.corrector? = some cc → p.corrector? = some k →
      ((cc.historyLengths.length + 2) * (2 ^ cc.weightBits - 1) < 2 ^ 31 →
        ∀ (pc : UInt64) (outcome : Direction) (confidence : Confidence) (primary : Direction)
          (path : PathHistory) (count : Nat),
          FitsInt32 (Corrector.total
            ((k.selected (k.predict pc outcome confidence primary path).selection).take count))) ∧
      (cc.threshold + p.stats.commits < 2 ^ 31 → FitsInt32 k.threshold) := by
  obtain ⟨hvalid, -⟩ := TageScl.build_eq_ok hbuild
  have hdescends :=
    (TageScl.kept_descends c built).reachable (TageScl.descends_build hbuild) hp
  refine ⟨fun i t ht => ?_, ?_, fun cc k hcc hk => ⟨fun hmax => ?_, fun hcommits => ?_⟩⟩
  · obtain ⟨hbank, hlogSize⟩ := TageScl.table_of_reachable hbuild hp ht
    rw [TaggedTable.hashShift_lt_iff hlogSize, hbank]
  · exact Ladder.Config.buffer_fits_iff hword (c.buffer_of_validate hvalid)
  · intro pc outcome confidence primary path count
    obtain ⟨cc', hcc', hranged⟩ := exists_left_of_rel hdescends.2.2.1.corrector hk
    obtain rfl := Option.some.inj (hcc.symm.trans hcc')
    have hle := Corrector.natAbs_total_take_le ((c.parts_of_validate hvalid).2 cc hcc)
      (hdescends.2.1.1.shaped k hk) hranged
      (k.predict pc outcome confidence primary path).selection count
    exact fitsInt32_of_natAbs_lt (hle.trans_lt hmax)
  · obtain ⟨cc', hcc', hpaced⟩ := exists_left_of_rel
      ((TageScl.kept_paced c).reachable (TageScl.paced_build hbuild) hp) hk
    obtain rfl := Option.some.inj (hcc.symm.trans hcc')
    have hone := hpaced.one_le
    have hadd := hpaced.le_add
    unfold FitsInt32
    omega

/-- A predictor that was wrong about a branch twice. -/
theorem twice_wrong_in_range :
    let built := TageScl.small (some {})
    let visits : List Call := [.predict 0 4 true, .commit 0 ⟨4, .directBranch, .notTaken, 64⟩,
      .predict 1 4 true, .commit 1 ⟨4, .directBranch, .notTaken, 64⟩]
    let p := ((Session.start built).run visits).predictor
    (TageScl.smallConfig (some {})).build = .ok built ∧ 6 < UInt64.size ∧ Reachable built p ∧
      p.stats.commits = 2 ∧ ∀ k, p.corrector? = some k → FitsInt32 k.threshold := by
  intro built visits p
  have hbuild : (TageScl.smallConfig (some {})).build = .ok built := rfl
  have hp : Reachable built p := Session.reachable_run (s := Session.start built) .origin visits
  have hcommits : p.stats.commits = 2 := by decide +kernel
  obtain ⟨-, -, hcorrector⟩ := arithmetic_in_range hbuild (by decide) hp
  refine ⟨hbuild, by decide, hp, hcommits, fun k hk => ?_⟩
  exact (hcorrector _ k rfl hk).2 (by rw [hcommits]; decide)

namespace TageScl

def manyTables : Config where
  base := { logSize := 1 }
  ladder :=
    { tables := (List.range' 1 65).map fun length => ⟨length, 1, 2⟩
      pathBits := 3
      historyBufferBits := 80
      maxInFlightBits := 2 }
  loops? := none
  corrector? := none
  seed? := some 1

/-- As many bits in flight as a word can count, and a buffer of six bits. -/
def boundless : Config :=
  { smallConfig none with
    ladder := { (smallConfig none).ladder with maxInFlightBits := 2 ^ 64 - 1 } }

/-- A corrector with the largest threshold of 32 bits and a counter of one bit for it. -/
def steepCorrector : Corrector.Config where
  biasLogSize := 1
  historyLengths := [3]
  historyLogSize := 1
  pathLogSize := 1
  threshold := 2 ^ 31 - 1
  thresholdBits := 1

def steepConfig : Config :=
  { smallConfig none with corrector? := some steepCorrector }

def steep : TageScl :=
  { small none with config := steepConfig, corrector? := some (.blank steepCorrector) }

/-- A branch that a new corrector is wrong about. -/
def wrongOnce : List Call :=
  [.predict 0 4 true, .commit 0 ⟨4, .directBranch, .notTaken, 64⟩]

end TageScl

open TageScl

/-- Configurations that are valid, but for which a shift is by a whole word, a buffer holds less
than it has to, and one commit raises the threshold out of its 32 bits. -/
theorem validation_admits_overflow :
    (manyTables.validate = .ok () ∧ ∃ p, manyTables.build = .ok p ∧
      ∃ t ∈ p.tage.ladder.tables, t.hashShift = 64) ∧
    (boundless.validate = .ok () ∧ ¬ boundless.longestHistory + boundless.ladder.maxInFlightBits <
      boundless.ladder.historyBufferBits) ∧
    steepConfig.validate = .ok () ∧ FitsInt32 steepCorrector.threshold ∧
      steepConfig.build = .ok steep ∧
      ∃ k, ((Session.start steep).run wrongOnce).predictor.corrector? = some k ∧
        ¬ FitsInt32 k.threshold := by
  have hmany : manyTables.validate = .ok () := by decide +kernel
  have hthreshold : ((Session.start steep).run wrongOnce).predictor.corrector?.map (·.threshold) =
      some (2 ^ 31) := by decide +kernel
  refine ⟨⟨hmany, ?_⟩, ⟨by decide +kernel, by decide +kernel⟩, by decide +kernel, by decide, rfl,
    ?_⟩
  · obtain ⟨p, hbuild, -⟩ := Config.exists_build hmany (by decide +kernel) (by decide +kernel)
    have hregular := (descends_build hbuild).regular hbuild
    obtain ⟨t, ht, hshape, hbank, -⟩ := hregular.ladder.table 64 ⟨65, 1, 2⟩ (by decide +kernel)
    refine ⟨p, hbuild, t, Array.mem_of_getElem? ht, ?_⟩
    rw [TaggedTable.hashShift, hshape, hbank]
    rfl
  · obtain ⟨k, hk, hraised⟩ := Option.map_eq_some_iff.1 hthreshold
    refine ⟨k, hk, ?_⟩
    rw [hraised]
    decide

end BranchPrediction
