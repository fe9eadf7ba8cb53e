import BranchPrediction.Proofs.Corrector.Bounds
import BranchPrediction.Proofs.Learning.Mistakes

/-!
# How often the corrector can be wrong about a constant branch

Rounds that predict and commit branches of one outcome `o`, all with the same selection of weights,
drive these weights toward `o`.  A round whose sum is wrong trains every selected weight, so it
takes one from the steps that each of them lacks (`Counter.lag`); a weight that lacks none stays
where it is or moves on.  Once none lacks any, all of them stand for `o`, and then so does their
sum, for each adds an odd number of the sign of `o` (`Corrector.verdict_of_agree`).  So there are no
more wrong rounds than steps that one weight can lack.

A sum that is right stays right: training only moves it further toward `o`
(`Corrector.verdict_train`).  The threshold decides which of the right rounds train, and neither
argument depends on that.
-/

namespace BranchPrediction

theorem keepsShape_id : KeepsShape id :=
  ⟨fun _ => rfl, fun _ => rfl⟩

namespace Corrector

/-! ## The verdict of some weights -/

/-- The direction that the total of some weights stands for. -/
def verdict (ws : List Counter) : Direction :=
  .ofBool (0 ≤ total ws)

theorem verdict_eq_taken_iff (ws : List Counter) : verdict ws = .taken ↔ 0 ≤ total ws := by
  rw [verdict, Direction.ofBool_eq_taken_iff, decide_eq_true_iff]

theorem verdict_eq_notTaken_iff (ws : List Counter) : verdict ws = .notTaken ↔ total ws < 0 := by
  rw [verdict, Direction.ofBool_eq_notTaken_iff, decide_eq_false_iff_not, Int.not_le]

/-- Weights that all stand for one direction add up to it. -/
theorem verdict_of_agree {ws : List Counter} {bits : Nat} {o : Direction} (hne : ws ≠ [])
    (hrange : ∀ w ∈ ws, w.range = .signed bits) (hagree : ∀ w ∈ ws, w.predict = o) :
    verdict ws = o := by
  cases o with
  | taken =>
      have hle : ws.length * (0 : Int) ≤ total ws := by
        refine mul_le_total fun w hw => ?_
        have hmid := w.predict_eq_taken_iff.1 (hagree w hw)
        simp only [hrange w hw, Counter.Range.signed] at hmid
        unfold addend
        omega
      rwa [mul_zero, ← verdict_eq_taken_iff] at hle
  | notTaken =>
      have hle : total ws ≤ ws.length * (-1 : Int) := by
        refine total_le_mul fun w hw => ?_
        have hmid := w.predict_eq_notTaken_iff.1 (hagree w hw)
        simp only [hrange w hw, Counter.Range.signed] at hmid
        unfold addend
        omega
      have hpos := List.length_pos_of_ne_nil hne
      rw [verdict_eq_notTaken_iff]
      omega

/-- Training moves a total toward the direction that it trains. -/
theorem total_train (ws : List Counter) :
    total ws ≤ total (ws.map (·.train .taken)) ∧
      total (ws.map (·.train .notTaken)) ≤ total ws := by
  simp only [total, List.map_map]
  constructor
  · refine List.sum_le_sum fun w _ => ?_
    have hle := w.le_increment
    change addend w ≤ addend w.increment
    unfold addend
    omega
  · refine List.sum_le_sum fun w _ => ?_
    have hle := w.decrement_le
    change addend w.decrement ≤ addend w
    unfold addend
    omega

/-- A total that is right stays right. -/
theorem verdict_train {ws : List Counter} {o : Direction} (h : verdict ws = o) :
    verdict (ws.map (·.train o)) = o := by
  obtain ⟨hup, hdown⟩ := total_train ws
  cases o with
  | taken =>
      rw [verdict_eq_taken_iff] at h ⊢
      omega
  | notTaken =>
      rw [verdict_eq_notTaken_iff] at h ⊢
      omega

/-! ## Rounds -/

/-- What a round may choose beside the outcome: the branch and what is predicted of it, and how the
history and the threshold change since the round before. -/
structure Round where
  pc : UInt64
  outcome : Direction
  confidence : Confidence
  primary : Direction
  path : PathHistory
  move : { g : FoldedHistory → FoldedHistory // KeepsShape g } := ⟨id, keepsShape_id⟩
  adapt : Int → Int := id

namespace Round

/-- The corrector that the round finds. -/
def found (r : Round) (k : Corrector) : Corrector :=
  { mapFolds r.move.1 k with threshold := r.adapt k.threshold }

def lookup (r : Round) (k : Corrector) : Lookup :=
  (r.found k).predict r.pc r.outcome r.confidence r.primary r.path

def next (r : Round) (o : Direction) (k : Corrector) : Corrector :=
  (r.found k).commit (r.lookup k) o

end Round

/-- The lookups of some rounds, all of them resolved to `o`. -/
def lookups (o : Direction) (k : Corrector) : List Round → List Lookup
  | [] => []
  | r :: rest => r.lookup k :: lookups o (r.next o k) rest

section Round

variable {c : Config} {k : Corrector} {o : Direction}

theorem Round.shaped_found (r : Round) (h : k.Shaped) : (r.found k).Shaped :=
  have hmoved := h.mapFolds r.move.2
  ⟨hmoved.1, hmoved.2, hmoved.3, hmoved.4, hmoved.5, hmoved.6, hmoved.7⟩

theorem Round.ranged_found (r : Round) (h : k.Ranged c) : (r.found k).Ranged c :=
  ⟨h.config_eq, h.bias, h.history, h.path, h.threshold⟩

theorem Round.shaped_next (r : Round) (h : k.Shaped) : (r.next o k).Shaped :=
  (r.shaped_found h).commit _ o

theorem Round.ranged_next (r : Round) (h : k.Ranged c) : (r.next o k).Ranged c :=
  (r.ranged_found h).commit _ o

theorem Round.selected_ne_nil (r : Round) (h : k.Shaped) :
    k.selected (r.lookup k).selection ≠ [] := by
  have hlength := (r.shaped_found h).length_selected r.pc r.outcome r.confidence r.primary r.path
  have hpos : 0 < (k.selected (r.lookup k).selection).length :=
    lt_of_lt_of_eq (Nat.succ_pos _) hlength.symm
  exact List.ne_nil_of_length_pos hpos

/-- The sum is wrong or right as the selected weights are, before history and threshold change. -/
theorem Round.outcome_lookup (r : Round) (k : Corrector) :
    (r.lookup k).outcome = verdict (k.selected (r.lookup k).selection) :=
  ((r.found k).sum_predict r.pc r.outcome r.confidence r.primary r.path).2

/-- A round that is wrong trains the selected weights; one that is right may do so. -/
theorem Round.selected_next (r : Round) (k : Corrector) :
    (r.next o k).selected (r.lookup k).selection =
        (k.selected (r.lookup k).selection).map (·.train o) ∨
      (r.lookup k).outcome = o ∧
        (r.next o k).selected (r.lookup k).selection = k.selected (r.lookup k).selection := by
  have hfound : (r.found k).selected (r.lookup k).selection =
      k.selected (r.lookup k).selection := rfl
  have hcommit := (r.found k).selected_commit (r.lookup k) o
  rw [hfound] at hcommit
  rw [Round.next]
  split at hcommit
  · next hlarge => exact .inr ⟨hlarge.1, hcommit⟩
  · exact .inl hcommit

/-- A round that is right leaves the weights with the right total. -/
theorem Round.verdict_next (r : Round) {s : Selection} (hsame : (r.lookup k).selection = s)
    (h : verdict (k.selected s) = o) : verdict ((r.next o k).selected s) = o := by
  subst hsame
  rcases r.selected_next k with htrained | ⟨-, hkept⟩
  · rw [htrained]
    exact verdict_train h
  · rw [hkept]
    exact h

/-- Training takes one from what the weights lack at most. -/
theorem lag_le_of_trained {ws : List Counter} {bits bound : Nat}
    (hrange : ∀ w ∈ ws, w.range = .signed bits) (h : ∀ w ∈ ws, w.lag o ≤ bound) :
    ∀ w ∈ ws.map (·.train o), w.lag o ≤ bound - 1 := by
  intro w' hw'
  obtain ⟨w, hw, rfl⟩ := List.mem_map.1 hw'
  have hsplit : w.range.IsSplit := hrange w hw ▸ Counter.Range.isSplit_signed bits
  have hlag := h w hw
  rw [Counter.lag_train hsplit]
  omega

end Round

/-! ## Runs of rounds -/

section Runs

variable {c : Config} {o : Direction} {s : Selection} (rounds : List Round)

/-- Where the sum is right, it stays right. -/
theorem outcome_of_verdict {k : Corrector} (hright : verdict (k.selected s) = o)
    (hsame : ∀ l ∈ k.lookups o rounds, l.selection = s) :
    ∀ l ∈ k.lookups o rounds, l.outcome = o := by
  induction rounds generalizing k with
  | nil => exact fun _ hl => nomatch hl
  | cons r rest ih =>
      obtain ⟨hfirst, hrest⟩ := List.forall_mem_cons.1 hsame
      refine List.forall_mem_cons.2 ⟨?_, ih (r.verdict_next hfirst hright) hrest⟩
      rw [r.outcome_lookup, hfirst, hright]

/-- After a round that is right come only such rounds. -/
theorem pairwise_lookups {k : Corrector} (hsame : ∀ l ∈ k.lookups o rounds, l.selection = s) :
    (k.lookups o rounds).Pairwise fun earlier later =>
      earlier.outcome = o → later.outcome = o := by
  induction rounds generalizing k with
  | nil => exact .nil
  | cons r rest ih =>
      obtain ⟨hfirst, hrest⟩ := List.forall_mem_cons.1 hsame
      refine List.pairwise_cons.2 ⟨fun l hl hright => ?_, ih hrest⟩
      rw [r.outcome_lookup, hfirst] at hright
      exact outcome_of_verdict rest (r.verdict_next hfirst hright) hrest l hl

/-- The sums of the rounds are as large as configured at most. -/
theorem natAbs_sum_lookups_le (hvalid : c.validate = .ok ()) {k : Corrector} (hshaped : k.Shaped)
    (hranged : k.Ranged c) : ∀ l ∈ k.lookups o rounds, l.sum.natAbs ≤ c.maxSum := by
  induction rounds generalizing k with
  | nil => exact fun _ hl => nomatch hl
  | cons r rest ih =>
      refine List.forall_mem_cons.2 ⟨?_, ih (r.shaped_next hshaped) (r.ranged_next hranged)⟩
      exact natAbs_sum_predict_le hvalid (r.shaped_found hshaped) (r.ranged_found hranged) ..

/-- There are as many wrong rounds as steps that a selected weight lacks, at most. -/
theorem countP_lookups_le {k : Corrector} (hshaped : k.Shaped) (hranged : k.Ranged c) {bound : Nat}
    (hlag : ∀ w ∈ k.selected s, w.lag o ≤ bound)
    (hsame : ∀ l ∈ k.lookups o rounds, l.selection = s) :
    (k.lookups o rounds).countP (·.outcome ≠ o) ≤ bound := by
  induction rounds generalizing k bound with
  | nil => exact Nat.zero_le _
  | cons r rest ih =>
      obtain ⟨hfirst, hrest⟩ := List.forall_mem_cons.1 hsame
      have hrange : ∀ w ∈ k.selected s, w.range = .signed c.weightBits :=
        fun w hw => hranged.range_of_mem_selected hw
      have htrained := lag_le_of_trained hrange hlag
      have hshaped' : (r.next o k).Shaped := r.shaped_next hshaped
      have hranged' : (r.next o k).Ranged c := r.ranged_next hranged
      have hselected := r.selected_next (o := o) k
      rw [hfirst] at hselected
      by_cases hright : (r.lookup k).outcome = o
      · -- trained or not, no weight lacks more than before
        have hkept : ∀ w ∈ (r.next o k).selected s, w.lag o ≤ bound := by
          rcases hselected with hmap | ⟨-, hsame⟩
          · rw [hmap]
            exact fun w hw => (htrained w hw).trans (Nat.sub_le _ _)
          · rw [hsame]
            exact hlag
        rw [lookups, List.countP_cons_of_neg (by simpa using hright)]
        exact ih hshaped' hranged' hkept hrest
      · -- not all of the selected weights can stand for `o`
        have hpos : 0 < bound := by
          by_contra hzero
          refine hright ?_
          rw [r.outcome_lookup, hfirst]
          refine verdict_of_agree (hfirst ▸ r.selected_ne_nil hshaped) hrange fun w hw => ?_
          exact (w.lag_eq_zero_iff o).1 (by have := hlag w hw; omega)
        have hmap := hselected.resolve_right fun h => hright h.1
        have hless := ih hshaped' hranged' (hmap ▸ htrained) hrest
        rw [lookups, List.countP_cons_of_pos (by simpa using hright)]
        omega

end Runs

end Corrector

/-- The corrector is wrong about a constant branch a bounded number of times.  In any sequence of
rounds that predict a branch and commit it with the outcome `o`, all with the same selection of
weights, every sum fits into 32 bits, the rounds whose sum stands for the other direction are no
more than the steps from the end of a weight's range to its middle, and after the first round that
is right all are right.  The history may move between the rounds, as long as the selection stays the
same, and the threshold may change in any way. -/
theorem corrector_mistakes_le {c : Corrector.Config} (hvalid : c.validate = .ok ())
    (hsum : (c.historyLengths.length + 2) * (2 ^ c.weightBits - 1) < 2 ^ 31) {k : Corrector}
    (hk : Corrector.Reachable c k) (o : Direction) (rounds : List Corrector.Round)
    (s : Corrector.Selection) (hsame : ∀ l ∈ k.lookups o rounds, l.selection = s) :
    (∀ l ∈ k.lookups o rounds, FitsInt32 l.sum) ∧
      (k.lookups o rounds).countP (·.outcome ≠ o) ≤ 2 ^ (c.weightBits - 1) ∧
      (k.lookups o rounds).Pairwise fun earlier later =>
        earlier.outcome = o → later.outcome = o := by
  have hshaped := hk.shaped hvalid
  have hmax : c.maxSum < 2 ^ 31 := hsum
  refine ⟨fun l hl => fitsInt32_of_natAbs_lt ?_, ?_, Corrector.pairwise_lookups rounds hsame⟩
  · have hle := Corrector.natAbs_sum_lookups_le rounds hvalid hshaped hk.ranged l hl
    omega
  · refine Corrector.countP_lookups_le rounds hshaped hk.ranged (fun w hw => ?_) hsame
    exact Counter.lag_le_of_signed (hk.ranged.range_of_mem_selected hw) o

/-- Three rounds of one branch; the last finds a threshold that makes it train again. -/
def Corrector.fewRounds : List Corrector.Round :=
  let round : Corrector.Round :=
    { pc := 4, outcome := .taken, confidence := .low, primary := .taken, path := .empty 3 }
  [round, round, { round with adapt := (· + 40) }]

/-- A new corrector takes all branches for taken, and one mistake is enough to turn it. -/
theorem notTakenBranch_mistakes_le :
    let k := Corrector.blank Corrector.small
    let lookups := k.lookups .notTaken Corrector.fewRounds
    let selection := (Corrector.Selection.mk 0 #[1, 1] 1)
    Corrector.small.validate = .ok () ∧ (2 + 2) * (2 ^ 2 - 1) < 2 ^ 31 ∧
      (∀ l ∈ lookups, l.selection = selection) ∧
      lookups.map (·.outcome) = [.taken, .notTaken, .notTaken] ∧
      lookups.countP (·.outcome ≠ .notTaken) ≤ 2 ^ (2 - 1) :=
  have hsame : ∀ l ∈ (Corrector.blank Corrector.small).lookups .notTaken Corrector.fewRounds,
      l.selection = (Corrector.Selection.mk 0 #[1, 1] 1) := by decide +kernel
  ⟨rfl, by decide, hsame, by decide +kernel,
    (corrector_mistakes_le rfl (by decide) .blank .notTaken _ _ hsame).2.1⟩

end BranchPrediction
