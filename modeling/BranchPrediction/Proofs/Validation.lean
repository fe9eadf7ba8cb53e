import BranchPrediction.Ittage.Config
import BranchPrediction.Proofs.Learning.Corrector
import BranchPrediction.TageScl.Config

/-!
# What a valid configuration promises

A configuration that passes its checks has folds that are narrower than a word, and no window is
longer than the longest history of the configuration.  These are the two facts that the folds of a
new predictor need to be in step with its register.  Beside the folds, the checks promise that the
counters of every part exist and that no table is empty.
-/

namespace BranchPrediction

/-! ## Chains of checks -/

/-- A chain of checks that succeeds has a first check that succeeds. -/
theorem of_bind_eq_ok {ε α β : Type} {x : Except ε α} {f : α → Except ε β} {b : β}
    (h : (x >>= f) = .ok b) : ∃ a, x = .ok a ∧ f a = .ok b := by
  cases x with
  | error e => cases h
  | ok a => exact ⟨a, rfl, h⟩

theorem throw_bind_ne_ok {ε α β : Type} (e : ε) (f : α → Except ε β) (b : β) :
    (throw e : Except ε α) >>= f ≠ .ok b := by
  intro h
  cases h

theorem of_require_eq_ok {cause : Precondition} {satisfied : Bool}
    (h : cause.require satisfied = .ok ()) : satisfied = true := by
  cases satisfied with
  | true => rfl
  | false => cases h

/-- A chain that goes on after a guard has passed the guard. -/
theorem of_guard_eq_ok {ε β : Type} {p : Prop} [Decidable p] {stop go : Except ε β} {b : β}
    (h : (if p then stop else go) = .ok b) (hstop : stop ≠ .ok b) : ¬p ∧ go = .ok b := by
  by_cases hp : p
  · rw [if_pos hp] at h
    exact absurd h hstop
  · rw [if_neg hp] at h
    exact ⟨hp, h⟩

theorem of_mapError_eq_ok {ε ε' α : Type} {f : ε → ε'} {x : Except ε α} {a : α}
    (h : x.mapError f = .ok a) : x = .ok a := by
  cases x with
  | error e => cases h
  | ok a' => exact congrArg Except.ok (Except.ok.inj h)

theorem lt_of_checkLogSize {part : Part} {logSize : Nat} (h : checkLogSize part logSize = .ok ()) :
    logSize < 31 := by
  unfold checkLogSize at h
  split at h
  · cases h
  · split at h
    · cases h
    · omega

theorem le_of_checkWidth {part : Part} {bits most : Nat} (h : checkWidth part bits most = .ok ()) :
    bits ≤ most := by
  unfold checkWidth at h
  split at h
  · cases h
  · split at h
    · cases h
    · omega

theorem pos_of_checkWidth {part : Part} {bits most : Nat}
    (h : checkWidth part bits most = .ok ()) : 0 < bits := by
  unfold checkWidth at h
  split at h
  · cases h
  · omega

theorem supports_of_checkWidth {part : Part} {bits : Nat}
    (h : checkWidth part bits Counter.Range.maxBits = .ok ()) :
    Counter.Range.supports bits = true := by
  simp [Counter.Range.supports, pos_of_checkWidth h, le_of_checkWidth h]

theorem le_foldl_max (list : List Nat) (least : Nat) :
    least ≤ list.foldl max least ∧ ∀ n ∈ list, n ≤ list.foldl max least := by
  induction list generalizing least with
  | nil => exact ⟨Nat.le_refl _, fun n hn => by cases hn⟩
  | cons a list ih =>
      obtain ⟨hleast, hlist⟩ := ih (max least a)
      rw [List.foldl_cons]
      constructor
      · omega
      · intro n hn
        rcases List.mem_cons.1 hn with rfl | hmem
        · omega
        · exact hlist n hmem

/-! ## Bimodal tables -/

theorem Bimodal.Config.widths_of_validate {c : Bimodal.Config} (h : c.validate = .ok ()) :
    c.logSize < 31 ∧ Counter.Range.supports c.counterBits = true := by
  obtain ⟨_, hlogSize, hcounter⟩ := of_bind_eq_ok h
  exact ⟨lt_of_checkLogSize hlogSize, supports_of_checkWidth hcounter⟩

/-! ## Ladders -/

namespace Ladder.Config

theorem widths_of_checkTables {i : Nat} {tables : List TableShape}
    (h : checkTables i tables = .ok ()) :
    ∀ t ∈ tables, t.logSize < 31 ∧ t.tagBits ≤ 31 := by
  induction tables generalizing i with
  | nil =>
      intro t ht
      cases ht
  | cons t tables ih =>
      obtain ⟨_, hfirst, hrest⟩ := of_bind_eq_ok h
      obtain ⟨_, hlogSize, htagBits⟩ := of_bind_eq_ok hfirst
      intro t' ht'
      rcases List.mem_cons.1 ht' with rfl | hmem
      · exact ⟨lt_of_checkLogSize hlogSize, le_of_checkWidth htagBits⟩
      · exact ih hrest t' hmem

theorem widths_of_validate {c : Config} (h : c.validate = .ok ()) :
    ∀ t ∈ c.tables, t.logSize < 31 ∧ t.tagBits ≤ 31 := by
  obtain ⟨-, h⟩ := of_guard_eq_ok h (throw_bind_ne_ok _ _ _)
  obtain ⟨_, -, h⟩ := of_bind_eq_ok h
  obtain ⟨-, h⟩ := of_guard_eq_ok h (throw_bind_ne_ok _ _ _)
  obtain ⟨_, htables, -⟩ := of_bind_eq_ok h
  exact widths_of_checkTables htables

theorem tagBits_pos_of_checkTables {i : Nat} {tables : List TableShape}
    (h : checkTables i tables = .ok ()) : ∀ t ∈ tables, 0 < t.tagBits := by
  induction tables generalizing i with
  | nil =>
      intro t ht
      cases ht
  | cons t tables ih =>
      obtain ⟨_, hfirst, hrest⟩ := of_bind_eq_ok h
      obtain ⟨_, -, htagBits⟩ := of_bind_eq_ok hfirst
      intro t' ht'
      rcases List.mem_cons.1 ht' with rfl | hmem
      · exact pos_of_checkWidth htagBits
      · exact ih hrest t' hmem

theorem tagBits_pos_of_validate {c : Config} (h : c.validate = .ok ()) :
    ∀ t ∈ c.tables, 0 < t.tagBits := by
  obtain ⟨-, h⟩ := of_guard_eq_ok h (throw_bind_ne_ok _ _ _)
  obtain ⟨_, -, h⟩ := of_bind_eq_ok h
  obtain ⟨-, h⟩ := of_guard_eq_ok h (throw_bind_ne_ok _ _ _)
  obtain ⟨_, htables, -⟩ := of_bind_eq_ok h
  exact tagBits_pos_of_checkTables htables

theorem counters_of_validate {c : Config} (h : c.validate = .ok ()) :
    Counter.Range.supports c.confidenceBits = true ∧ Counter.Range.supports c.usefulBits = true ∧
      Counter.Range.supports c.useAltBits = true := by
  obtain ⟨-, h⟩ := of_guard_eq_ok h (throw_bind_ne_ok _ _ _)
  obtain ⟨_, -, h⟩ := of_bind_eq_ok h
  obtain ⟨-, h⟩ := of_guard_eq_ok h (throw_bind_ne_ok _ _ _)
  obtain ⟨_, -, h⟩ := of_bind_eq_ok h
  obtain ⟨_, hconfidence, h⟩ := of_bind_eq_ok h
  obtain ⟨_, huseful, h⟩ := of_bind_eq_ok h
  obtain ⟨_, huseAlt, -⟩ := of_bind_eq_ok h
  exact ⟨supports_of_checkWidth hconfidence, supports_of_checkWidth huseful,
    supports_of_checkWidth huseAlt⟩

/-- A valid ladder has tables, use-alt-on-new counters and a period of aging. -/
theorem positive_of_validate {c : Config} (h : c.validate = .ok ()) :
    0 < c.tables.length ∧ 0 < c.useAltBuckets ∧ c.usefulResetPeriod ≠ 0 := by
  obtain ⟨hempty, h⟩ := of_guard_eq_ok h (throw_bind_ne_ok _ _ _)
  obtain ⟨_, -, h⟩ := of_bind_eq_ok h
  obtain ⟨-, h⟩ := of_guard_eq_ok h (throw_bind_ne_ok _ _ _)
  obtain ⟨_, -, h⟩ := of_bind_eq_ok h
  obtain ⟨_, -, h⟩ := of_bind_eq_ok h
  obtain ⟨_, -, h⟩ := of_bind_eq_ok h
  obtain ⟨_, -, h⟩ := of_bind_eq_ok h
  obtain ⟨hbuckets, h⟩ := of_guard_eq_ok h (throw_bind_ne_ok _ _ _)
  obtain ⟨hperiod, -⟩ := of_guard_eq_ok h (throw_bind_ne_ok _ _ _)
  rw [List.isEmpty_iff] at hempty
  exact ⟨List.length_pos_iff.2 hempty, by omega, hperiod⟩

/-- An allocation in a valid ladder visits at least one table. -/
theorem maxAllocationScan_pos_of_validate {c : Config} (h : c.validate = .ok ()) :
    0 < c.maxAllocationScan := by
  obtain ⟨-, h⟩ := of_guard_eq_ok h (throw_bind_ne_ok _ _ _)
  obtain ⟨_, -, h⟩ := of_bind_eq_ok h
  obtain ⟨-, h⟩ := of_guard_eq_ok h (throw_bind_ne_ok _ _ _)
  obtain ⟨_, -, h⟩ := of_bind_eq_ok h
  obtain ⟨_, -, h⟩ := of_bind_eq_ok h
  obtain ⟨_, -, h⟩ := of_bind_eq_ok h
  obtain ⟨_, -, h⟩ := of_bind_eq_ok h
  obtain ⟨-, h⟩ := of_guard_eq_ok h (throw_bind_ne_ok _ _ _)
  obtain ⟨-, h⟩ := of_guard_eq_ok h (throw_bind_ne_ok _ _ _)
  obtain ⟨hscan, -⟩ := of_guard_eq_ok h (throw_bind_ne_ok _ _ _)
  omega

/-- The folds of a valid ladder are narrower than a word, and their windows no longer than its
longest history. -/
theorem foldShapes_bounds {c : Config} (h : c.validate = .ok ()) :
    ∀ s ∈ c.foldShapes, s.1 < 64 ∧ s.2 ≤ c.longestHistory := by
  intro s hs
  obtain ⟨t, ht, hs⟩ := List.mem_flatMap.1 hs
  obtain ⟨hlogSize, htagBits⟩ := widths_of_validate h t ht
  have hwindow : t.historyLength ≤ c.longestHistory :=
    (le_foldl_max _ 0).2 _ (List.mem_map_of_mem ht)
  simp only [TableShape.foldShapes, List.mem_cons, List.not_mem_nil, or_false] at hs
  rcases hs with rfl | rfl | rfl
  · exact ⟨by omega, hwindow⟩
  · exact ⟨by omega, hwindow⟩
  · exact ⟨by simp only; omega, hwindow⟩

/-- The last checks of a ladder: the path fits a word, and the buffer was checked. -/
theorem path_and_buffer_of_validate {c : Config} (h : c.validate = .ok ()) :
    c.pathBits < 64 ∧ c.checkHistoryBuffer c.longestHistory = .ok () := by
  obtain ⟨-, h⟩ := of_guard_eq_ok h (throw_bind_ne_ok _ _ _)
  obtain ⟨_, -, h⟩ := of_bind_eq_ok h
  obtain ⟨-, h⟩ := of_guard_eq_ok h (throw_bind_ne_ok _ _ _)
  obtain ⟨_, -, h⟩ := of_bind_eq_ok h
  obtain ⟨_, -, h⟩ := of_bind_eq_ok h
  obtain ⟨_, -, h⟩ := of_bind_eq_ok h
  obtain ⟨_, -, h⟩ := of_bind_eq_ok h
  obtain ⟨-, h⟩ := of_guard_eq_ok h (throw_bind_ne_ok _ _ _)
  obtain ⟨-, h⟩ := of_guard_eq_ok h (throw_bind_ne_ok _ _ _)
  obtain ⟨-, h⟩ := of_guard_eq_ok h (throw_bind_ne_ok _ _ _)
  obtain ⟨hpath, h⟩ := of_guard_eq_ok h (throw_bind_ne_ok _ _ _)
  exact ⟨by omega, h⟩

/-- A buffer that passed its check holds the longest history beside the bits allowed in flight, as
long as their sum fits a word. -/
theorem lt_of_checkHistoryBuffer {c : Config} {longest : Nat}
    (h : c.checkHistoryBuffer longest = .ok ())
    (hword : longest + c.maxInFlightBits < UInt64.size) :
    longest + c.maxInFlightBits < c.historyBufferBits := by
  obtain ⟨-, h⟩ := of_guard_eq_ok h (throw_bind_ne_ok _ _ _)
  by_contra hsmall
  rw [Nat.mod_eq_of_lt hword, if_pos (by omega)] at h
  cases h

end Ladder.Config

/-! ## Loop predictors -/

namespace LoopPredictor.Config

/-- The sets of a valid loop predictor have entries, and its tables have indices that fit a word. -/
theorem sizes_of_validate {c : Config} (h : c.validate = .ok ()) :
    c.ways ≠ 0 ∧ c.logSets < 24 ∧ c.trustLogSize < 24 ∧ c.tagBits ≤ 31 := by
  obtain ⟨hways, h⟩ := of_guard_eq_ok h (throw_bind_ne_ok _ _ _)
  obtain ⟨hsizes, h⟩ := of_guard_eq_ok h (throw_bind_ne_ok _ _ _)
  obtain ⟨_, htag, -⟩ := of_bind_eq_ok h
  exact ⟨hways, by omega, by omega, le_of_checkWidth htag⟩

theorem counters_of_validate {c : Config} (h : c.validate = .ok ()) :
    Counter.Range.supports c.confidenceBits = true ∧ Counter.Range.supports c.ageBits = true ∧
      Counter.Range.supports c.trustBits = true := by
  obtain ⟨-, h⟩ := of_guard_eq_ok h (throw_bind_ne_ok _ _ _)
  obtain ⟨-, h⟩ := of_guard_eq_ok h (throw_bind_ne_ok _ _ _)
  obtain ⟨_, -, h⟩ := of_bind_eq_ok h
  obtain ⟨_, -, h⟩ := of_bind_eq_ok h
  obtain ⟨_, hconfidence, h⟩ := of_bind_eq_ok h
  obtain ⟨_, hage, htrust⟩ := of_bind_eq_ok h
  exact ⟨supports_of_checkWidth hconfidence, supports_of_checkWidth hage,
    supports_of_checkWidth htrust⟩

end LoopPredictor.Config

/-! ## Correctors -/

namespace Corrector.Config

theorem logSizes_of_validate {c : Config} (h : c.validate = .ok ()) :
    c.biasLogSize < 31 ∧ c.historyLogSize < 31 ∧ c.pathLogSize < 31 := by
  obtain ⟨_, -, h⟩ := of_bind_eq_ok h
  obtain ⟨_, hbias, h⟩ := of_bind_eq_ok h
  obtain ⟨_, hhistory, h⟩ := of_bind_eq_ok h
  obtain ⟨_, hpath, -⟩ := of_bind_eq_ok h
  exact ⟨lt_of_checkLogSize hbias, lt_of_checkLogSize hhistory, lt_of_checkLogSize hpath⟩

theorem counters_of_validate {c : Config} (h : c.validate = .ok ()) :
    Counter.Range.supports c.weightBits = true ∧
      Counter.Range.supports c.thresholdBits = true := by
  obtain ⟨_, -, h⟩ := of_bind_eq_ok h
  obtain ⟨_, -, h⟩ := of_bind_eq_ok h
  obtain ⟨_, -, h⟩ := of_bind_eq_ok h
  obtain ⟨_, -, h⟩ := of_bind_eq_ok h
  obtain ⟨_, hweight, h⟩ := of_bind_eq_ok h
  obtain ⟨_, hthreshold, -⟩ := of_bind_eq_ok h
  exact ⟨supports_of_checkWidth hweight, supports_of_checkWidth hthreshold⟩

theorem threshold_of_validate {c : Config} (h : c.validate = .ok ()) : 1 ≤ c.threshold := by
  obtain ⟨_, -, h⟩ := of_bind_eq_ok h
  obtain ⟨_, -, h⟩ := of_bind_eq_ok h
  obtain ⟨_, -, h⟩ := of_bind_eq_ok h
  obtain ⟨_, -, h⟩ := of_bind_eq_ok h
  obtain ⟨_, -, h⟩ := of_bind_eq_ok h
  obtain ⟨_, -, h⟩ := of_bind_eq_ok h
  by_contra hlt
  rw [if_pos (by omega)] at h
  cases h

theorem foldShapes_bounds {c : Config} (h : c.validate = .ok ()) :
    ∀ s ∈ c.foldShapes, s.1 < 64 ∧ s.2 ≤ c.longestHistory := by
  intro s hs
  obtain ⟨length, hlength, rfl⟩ := List.mem_map.1 hs
  obtain ⟨-, hhistory, -⟩ := logSizes_of_validate h
  exact ⟨by simp only; omega, (le_foldl_max _ 0).2 _ hlength⟩

end Corrector.Config

/-! ## Whole predictors -/

theorem Ittage.Config.ladder_of_validate {c : Ittage.Config} (h : c.validate = .ok ()) :
    c.ladder.validate = .ok () := by
  obtain ⟨_, hladder, -⟩ := of_bind_eq_ok h
  exact hladder

theorem Ittage.Config.le_of_checkBits {kind : TransferKind} {bits : Nat}
    (h : checkBits kind bits = .ok ()) : bits ≤ 64 := by
  unfold checkBits at h
  split at h
  · cases h
  · omega

/-- No kind of branch inserts more than a word. -/
theorem Ittage.Config.bits_of_validate {c : Ittage.Config} (h : c.validate = .ok ()) :
    c.conditionalBits ≤ 1 ∧ c.indirectJumpBits ≤ 64 ∧ c.indirectCallBits ≤ 64 ∧
      c.directCallBits ≤ 64 := by
  obtain ⟨_, -, h⟩ := of_bind_eq_ok h
  obtain ⟨hconditional, h⟩ := of_guard_eq_ok h (throw_bind_ne_ok _ _ _)
  obtain ⟨_, hjump, h⟩ := of_bind_eq_ok h
  obtain ⟨_, hindirect, hdirect⟩ := of_bind_eq_ok h
  exact ⟨by omega, le_of_checkBits hjump, le_of_checkBits hindirect, le_of_checkBits hdirect⟩

theorem TageScl.Config.parts_of_validate {c : TageScl.Config} (h : c.validate = .ok ()) :
    c.ladder.validate = .ok () ∧
      ∀ corrector, c.corrector? = some corrector → corrector.validate = .ok () := by
  rcases c with ⟨base, ladder, loops?, corrector?, takenOnlyHistory, seed?⟩
  obtain ⟨_, -, h⟩ := of_bind_eq_ok h
  obtain ⟨_, hladder, h⟩ := of_bind_eq_ok h
  refine ⟨hladder, ?_⟩
  rintro corrector rfl
  cases loops? with
  | none =>
      obtain ⟨_, hcorrector, -⟩ := of_bind_eq_ok h
      exact hcorrector
  | some loops =>
      obtain ⟨_, -, h⟩ := of_bind_eq_ok h
      obtain ⟨_, hcorrector, -⟩ := of_bind_eq_ok h
      exact hcorrector

theorem TageScl.Config.base_of_validate {c : TageScl.Config} (h : c.validate = .ok ()) :
    c.base.validate = .ok () := by
  obtain ⟨_, hbase, -⟩ := of_bind_eq_ok h
  exact hbase

theorem TageScl.Config.loops_of_validate {c : TageScl.Config} (h : c.validate = .ok ())
    {loops : LoopPredictor.Config} (hloops : c.loops? = some loops) : loops.validate = .ok () := by
  rcases c with ⟨base, ladder, loops?, corrector?, takenOnlyHistory, seed?⟩
  change loops? = some loops at hloops
  subst hloops
  obtain ⟨_, -, h⟩ := of_bind_eq_ok h
  obtain ⟨_, -, h⟩ := of_bind_eq_ok h
  obtain ⟨_, hloops, -⟩ := of_bind_eq_ok h
  exact hloops

theorem TageScl.Config.parts_of_hasRoom {c : TageScl.Config} (h : c.hasRoom = true) :
    c.ladder.hasRoom = true ∧ ∀ loops, c.loops? = some loops → loops.hasRoom = true := by
  obtain ⟨hladder, hloops⟩ := Bool.and_eq_true_iff.1 h
  refine ⟨hladder, fun loops hsome => ?_⟩
  rw [hsome] at hloops
  exact hloops

/-- The buffer of a direction predictor is checked last, against the longest history of all. -/
theorem TageScl.Config.buffer_of_validate {c : TageScl.Config} (h : c.validate = .ok ()) :
    c.ladder.checkHistoryBuffer c.longestHistory = .ok () := by
  rcases c with ⟨base, ladder, loops?, corrector?, takenOnlyHistory, seed?⟩
  obtain ⟨_, -, h⟩ := of_bind_eq_ok h
  obtain ⟨_, -, h⟩ := of_bind_eq_ok h
  cases loops? with
  | none =>
      cases corrector? with
      | none => exact h
      | some corrector =>
          obtain ⟨_, -, h⟩ := of_bind_eq_ok h
          exact h
  | some loops =>
      obtain ⟨_, -, h⟩ := of_bind_eq_ok h
      cases corrector? with
      | none => exact h
      | some corrector =>
          obtain ⟨_, -, h⟩ := of_bind_eq_ok h
          exact h

end BranchPrediction
