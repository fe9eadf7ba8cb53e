import BranchPrediction.Proofs.Pipeline.Keepers
import BranchPrediction.Proofs.Pipeline.Ledger
import BranchPrediction.Proofs.Validation

/-!
# Bits in flight and the capacity of the history

Both predictors count the bits in flight, and refuse to insert bits for which there would be no
room beside the longest history that is read.  The count is kept by subtractions that stop at zero,
and it is changed by every kind of call, by refused ones too.

`accounted_run` says that the count is right after every run without a reset: it is the sum over
the ledger of the run, nothing is ever subtracted that is not there, and the history overflows
exactly when the sum would exceed the capacity.
-/

namespace BranchPrediction

open SteppedPredictor HistoryKeeper SpeculativeHistory

/-! ## What timelines answer -/

namespace Timeline

variable {size longest : Nat} {t : Timeline} {L : Ledger} {h : Nat}
  {bits : Branch → UInt64 × Nat} {c? : Option Checkpoint}

theorem Balanced.holds_of_isOutOfOrder (hbalanced : t.Balanced size longest L) {b : Branch}
    (hrefused : isOutOfOrder (t.perform bits (.update h b)).2 = true) : L.holds h = true := by
  rw [isOutOfOrder_update] at hrefused
  rw [hbalanced.holds_eq]
  obtain ⟨violation, hdisorder⟩ := Option.isSome_iff_exists.1 hrefused
  obtain ⟨c, hc, -⟩ := Option.bind_eq_some_iff.1 hdisorder
  rw [hc]
  rfl

/-- An update that is in order answers whether there is room for the bits beside those of the other
contributions. -/
theorem Balanced.update_eq (hbalanced : t.Balanced size longest L) (hbits : ∀ b, (bits b).2 ≤ 64)
    (hrecord : t.records h = some c?) {b : Branch}
    (horder : isOutOfOrder (t.perform bits (.update h b)).2 = false) :
    (t.perform bits (.update h b)).2 =
      overflowAt (size - longest - 1) ((L.strike h).speculative + (bits b).2) := by
  rw [isOutOfOrder_update, Option.isSome_eq_false_iff, Option.isNone_iff_eq_none] at horder
  obtain rfl := applied?_of_records hrecord
  rw [← hbalanced.appendError?_undone h (hbits b)]
  simp only [Timeline.perform, hrecord, revise, horder]
  cases (t.history.undone (t.applied? h)).appendError? (bits b).2 with
  | none => rfl
  | some error => rfl

/-- A commit that has to insert the history of its branch answers whether there is room for it. -/
theorem Balanced.commit_eq (hbalanced : t.Balanced size longest L) (hbits : ∀ b, (bits b).2 ≤ 64)
    (hrecord : t.records h = some c?) (hfree : L.holds h = false) (b : Branch) :
    (t.perform bits (.commit h b)).2 =
      overflowAt (size - longest - 1) (L.speculative + (bits b).2) := by
  have hroom := hbalanced.room
  rw [hbalanced.holds_eq, applied?_of_records hrecord] at hfree
  obtain rfl := Option.isNone_iff_eq_none.1 (by simpa using hfree)
  rw [← hbalanced.inFlight_eq,
    ← appendError?_eq_overflowAt hbalanced.dimensions_eq (by omega) (hbits b)]
  simp only [Timeline.perform, hrecord, settle]
  cases t.history.appendError? (bits b).2 with
  | none => rfl
  | some error => rfl

theorem Balanced.commit_holds (hbalanced : t.Balanced size longest L)
    (hrecord : t.records h = some c?) (hholds : L.holds h = true) (b : Branch) :
    (t.perform bits (.commit h b)).2 = none := by
  rw [hbalanced.holds_eq, applied?_of_records hrecord] at hholds
  obtain ⟨c, rfl⟩ := Option.isSome_iff_exists.1 hholds
  simp only [Timeline.perform, hrecord, settle]

end Timeline

/-! ## Both predictors -/

variable {P R Q : Type} [SpeculativePredictor P R Q] [SteppedPredictor P] [HistoryKeeper P]

/-- The bits of a session are accounted for by the ledger of its run, for a register of `size` bits
of which `longest` are read at most. -/
structure Session.Accounted (size longest : Nat) (s : Session P R) (L : Ledger) : Prop where
  /-- The ledger has the contributions that are applied. -/
  holds_eq : ∀ {h : Nat} {r : R}, s.records h = some r → L.holds h = (contribution? P r).isSome
  inFlight_eq : (history s.predictor).inFlight = L.speculative
  /-- What an undo or a commit takes from the count is there. -/
  count_le : ∀ {h : Nat} {r : R} {c : Contribution}, s.records h = some r →
    contribution? P r = some c → c.checkpoint.count ≤ (history s.predictor).inFlight
  room : (history s.predictor).inFlight + longest < size
  /-- Only a contribution that is applied is ever out of order. -/
  holds_of_refused : ∀ {h : Nat} {r : R}, s.records h = some r → ∀ (repairs : Bool) (b : Branch),
    isOutOfOrder (s.perform (.revise h repairs b)).2 = true → L.holds h = true
  /-- Any other update overflows exactly if the bits are too many with those of the others. -/
  revise_eq : ∀ {h : Nat} {r : R}, s.records h = some r → ∀ (repairs : Bool) (b : Branch),
    isOutOfOrder (s.perform (.revise h repairs b)).2 = false →
    (s.perform (.revise h repairs b)).2 =
      overflowAt (size - longest - 1) ((L.strike h).speculative + (historyBits s.predictor b).2)
  /-- So does a commit that has to insert the history of its branch. -/
  commit_eq : ∀ {h : Nat} {r : R}, s.records h = some r → L.holds h = false → ∀ b : Branch,
    (s.perform (.commit h b)).2 =
      overflowAt (size - longest - 1) (L.speculative + (historyBits s.predictor b).2)
  /-- Any other commit succeeds. -/
  commit_of_holds : ∀ {h : Nat} {r : R}, s.records h = some r → L.holds h = true → ∀ b : Branch,
    (s.perform (.commit h b)).2 = none

theorem KeepsHistory.accounted {Sound : P → Prop} {bits : Branch → UInt64 × Nat}
    (laws : KeepsHistory Sound) {s : Session P R} (hs : s.Fits Sound bits)
    (hbits : ∀ b, (bits b).2 ≤ 64) {size longest : Nat} {L : Ledger}
    (hbalanced : s.timeline.Balanced size longest L) : s.Accounted size longest L := by
  have hrecords : ∀ {h : Nat} {r : R}, s.records h = some r →
      s.timeline.records h = some (checkpoint? P r) := by
    intro h r hrecord
    rw [records_timeline, hrecord, Option.map_some]
  have hanswer : ∀ call, (s.perform call).2 = (s.timeline.perform bits call).2 :=
    fun call => congrArg Prod.snd (laws.perform_timeline hs call).2
  have hrevise : ∀ (h : Nat) (repairs : Bool) (b : Branch),
      (s.perform (.revise h repairs b)).2 = (s.timeline.perform bits (.update h b)).2 := by
    intro h repairs b
    rw [hanswer]
    cases repairs with
    | true => rfl
    | false => rfl
  constructor
  · intro h r hrecord
    rw [hbalanced.holds_eq, Timeline.applied?_of_records (hrecords hrecord), checkpoint?,
      Option.isSome_map]
  · exact hbalanced.inFlight_eq
  · intro h r c hrecord hc
    refine hbalanced.count_le (h := h) ?_
    rw [Timeline.applied?_of_records (hrecords hrecord), checkpoint?, hc, Option.map_some]
  · change s.timeline.history.inFlight + longest < size
    rw [hbalanced.inFlight_eq]
    exact hbalanced.room
  · intro h r _ repairs b hrefused
    rw [hrevise] at hrefused
    exact hbalanced.holds_of_isOutOfOrder hrefused
  · intro h r hrecord repairs b horder
    rw [hrevise] at horder ⊢
    rw [hs.historyBits_eq]
    exact hbalanced.update_eq hbits (hrecords hrecord) horder
  · intro h r hrecord hfree b
    rw [hanswer, hs.historyBits_eq]
    exact hbalanced.commit_eq hbits (hrecords hrecord) hfree b
  · intro h r hrecord hholds b
    rw [hanswer]
    exact hbalanced.commit_holds (hrecords hrecord) hholds b

theorem TageScl.Config.historyBits_le (c : TageScl.Config) (b : Branch) :
    (c.historyBits b).2 ≤ 64 := by
  unfold TageScl.Config.historyBits
  split
  · simp
  · split
    · simp
    · simp

theorem Ittage.Config.historyBits_le {c : Ittage.Config} (hvalid : c.validate = .ok ())
    (b : Branch) : (c.historyBits b).2 ≤ 64 := by
  obtain ⟨hconditional, hjump, hindirect, hdirect⟩ := c.bits_of_validate hvalid
  unfold Ittage.Config.historyBits
  cases b.kind with
  | directBranch => simp only; omega
  | indirectJump => exact hjump
  | directCall => exact hdirect
  | indirectCall => exact hindirect
  | directJump => simp
  | procedureReturn => simp

/-- The bits allowed in flight fit into a buffer that passed its check. -/
theorem Ladder.Config.overflowAt_eq_none {c : Ladder.Config} {longest : Nat}
    (hcheck : c.checkHistoryBuffer longest = .ok ())
    (hword : longest + c.maxInFlightBits < UInt64.size) {total : Nat}
    (htotal : total ≤ c.maxInFlightBits) :
    overflowAt (c.historyBufferBits - longest - 1) total = none := by
  have hroom := c.lt_of_checkHistoryBuffer hcheck hword
  rw [overflowAt_eq_none_iff]
  omega

/-- After every run without a reset, with refused calls or without, the bits of the predictor are
accounted for by the ledger of the run; and the history overflows only beyond the number of bits
that the configuration allows in flight. -/
theorem accounted_run :
    (∀ {c : TageScl.Config} {p : TageScl}, c.build = .ok p →
      ∀ {calls : List Call}, .reset ∉ calls →
        ((Session.start p).run calls).Accounted c.ladder.historyBufferBits c.longestHistory
            ((Session.start p).ledger [] calls) ∧
          (c.longestHistory + c.ladder.maxInFlightBits < UInt64.size →
            ∀ total ≤ c.ladder.maxInFlightBits,
              overflowAt (c.ladder.historyBufferBits - c.longestHistory - 1) total = none)) ∧
      ∀ {c : Ittage.Config} {p : Ittage}, c.build = .ok p →
        ∀ {calls : List Call}, .reset ∉ calls →
          ((Session.start p).run calls).Accounted c.ladder.historyBufferBits
              c.ladder.longestHistory ((Session.start p).ledger [] calls) ∧
            (c.ladder.longestHistory + c.ladder.maxInFlightBits < UInt64.size →
              ∀ total ≤ c.ladder.maxInFlightBits,
                overflowAt (c.ladder.historyBufferBits - c.ladder.longestHistory - 1) total =
                  none) := by
  constructor
  · intro c p hbuild calls hreset
    obtain ⟨hvalid, -, hcreate⟩ := TageScl.build_eq_ok hbuild
    have laws := TageScl.keepsHistory c
    have hfits := TageScl.fits_build hbuild
    have hbalanced := laws.balanced_run hfits c.historyBits_le (Session.balanced_start hcreate)
      hreset
    constructor
    · exact laws.accounted (laws.run_timeline hfits calls).1 c.historyBits_le hbalanced
    · intro hword total htotal
      exact c.ladder.overflowAt_eq_none (c.buffer_of_validate hvalid) hword htotal
  · intro c p hbuild calls hreset
    obtain ⟨hvalid, -, hcreate⟩ := Ittage.build_eq_ok hbuild
    have laws := Ittage.keepsHistory c
    have hfits := Ittage.fits_build hbuild
    have hbits := c.historyBits_le hvalid
    have hbalanced := laws.balanced_run hfits hbits (Session.balanced_start hcreate) hreset
    constructor
    · exact laws.accounted (laws.run_timeline hfits calls).1 hbits hbalanced
    · intro hword total htotal
      obtain ⟨-, hbuffer⟩ := c.ladder.path_and_buffer_of_validate (c.ladder_of_validate hvalid)
      exact c.ladder.overflowAt_eq_none hbuffer hword htotal

/-- Three indirect jumps of which the third overflows at first, the oldest one is lost in a squash
out of order, and the second one commits. -/
def crowdedRun : List Call :=
  [.predict 0 4 false, .update 0 ⟨4, .indirectJump, .taken, 64⟩,
    .placeholder 1 8 false, .update 1 ⟨8, .indirectJump, .taken, 32⟩,
    .predict 2 12 false, .update 2 ⟨12, .indirectJump, .taken, 16⟩, .squash 0,
    .commit 1 ⟨8, .indirectJump, .taken, 32⟩, .repair 2 ⟨12, .indirectJump, .taken, 16⟩]

theorem crowdedRun_accounted :
    ((Session.start (TageScl.small none)).ledger [] crowdedRun =
        [⟨.live 2, 1⟩, ⟨.retired, 1⟩, ⟨.lost, 1⟩] ∧
      ((Session.start (TageScl.small none)).run crowdedRun).Accounted 6 3
        ((Session.start (TageScl.small none)).ledger [] crowdedRun) ∧
      ∀ total ≤ 2, overflowAt 2 total = none) ∧
    (Session.start Ittage.small).ledger [] crowdedRun =
        [⟨.live 2, 2⟩, ⟨.retired, 2⟩, ⟨.lost, 2⟩] ∧
      ((Session.start Ittage.small).run crowdedRun).Accounted 7 2
        ((Session.start Ittage.small).ledger [] crowdedRun) ∧
      ∀ total ≤ 3, overflowAt 4 total = none := by
  have hbuildTageScl : (TageScl.smallConfig none).build = .ok (TageScl.small none) := rfl
  have hbuildIttage : Ittage.smallConfig.build = .ok Ittage.small := rfl
  have hreset : Call.reset ∉ crowdedRun := by decide
  obtain ⟨htageScl, hittage⟩ := accounted_run
  obtain ⟨haccounted, hroom⟩ := htageScl hbuildTageScl hreset
  obtain ⟨haccounted', hroom'⟩ := hittage hbuildIttage hreset
  constructor
  · exact ⟨by decide +kernel, haccounted, hroom (by decide)⟩
  · exact ⟨by decide +kernel, haccounted', hroom' (by decide)⟩

end BranchPrediction
