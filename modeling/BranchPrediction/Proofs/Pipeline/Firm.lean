import BranchPrediction.Proofs.Pipeline.Keepers

/-!
# The firm part of a predictor

The check before an undo looks at the write position of the history.  A branch that inserts no bits
does not move it, and yet it draws random numbers and may advance the iteration count of a loop.
`firm` is what is left of a predictor without these two: branches that insert nothing do not change
it, and what an undo makes of it depends on nothing else (`KeepsFirm`).  The random state that an
undo leaves is the one that the branch found, whatever happened since.
-/

namespace BranchPrediction

open SteppedPredictor HistoryKeeper SpeculativeHistory

/-- A predictor with a firm part. -/
class Firm (P : Type) where
  /-- The predictor without its random state and its speculative iteration counts. -/
  firm : P → P
  random : P → Xorshift
  /-- The speculative iteration counts. -/
  counts : P → List Nat

open Firm

/-- The laws of the firm part. -/
structure KeepsFirm (P : Type) {R Q : Type} [SpeculativePredictor P R Q] [SteppedPredictor P]
    [HistoryKeeper P] [Firm P] : Prop where
  history_firm : ∀ p : P, history (firm p) = history p
  firm_apply : ∀ (p : P) (r : R) (b : Branch), (historyBits p b).2 = 0 →
    firm (apply p r b).1 = firm p
  firm_undo : ∀ (p : P) (r : R), firm (undo (firm p) r).1 = firm (undo p r).1
  random_undo : ∀ (p q : P) (r : R) (b : Branch), random (undo p (apply q r b).2).1 = random q
  eq_of_firm : ∀ {p q : P}, firm p = firm q → random p = random q → counts p = counts q → p = q

/-- Inserting no bits changes nothing. -/
theorem SpeculativeHistory.append_of_count_eq_zero {α : Type} [HistoryView α]
    (h : SpeculativeHistory) (bits : UInt64) {count : Nat} (hcount : count = 0) (pc : UInt64)
    (views : α) : (h.append bits count pc views).2 = (h, views) := by
  rcases h with ⟨register, path, longest, inFlight⟩
  subst hcount
  rfl

/-! ## ITTAGE -/

namespace Ittage

instance : Firm Ittage where
  firm p := { p with random := .ofSeed 0 }
  random p := p.random
  counts _ := []

theorem keepsFirm : KeepsFirm Ittage where
  history_firm _ := rfl
  firm_apply p r b hwidth := by
    have hsame : (p.appended b).2 = (p.history, p.ladder) :=
      append_of_count_eq_zero p.history _ hwidth b.pc p.ladder
    change firm (apply p r b).1 = firm p
    rw [apply_eq, hsame]
    rfl
  firm_undo p r := by
    change firm (undo (firm p) r).1 = firm (undo p r).1
    cases hc : r.contribution? with
    | none =>
        rw [undo_of_none _ hc, undo_of_none _ hc]
        rfl
    | some contribution =>
        rw [undo_eq _ hc, undo_eq _ hc]
        rfl
  random_undo p q r b := rfl
  eq_of_firm := by
    rintro ⟨config, ladder, history, random⟩ ⟨config', ladder', history', random'⟩ hfirm hrandom -
    obtain ⟨rfl, rfl, rfl, -⟩ := Ittage.mk.inj hfirm
    exact congrArg (Ittage.mk config ladder history) hrandom

end Ittage

/-! ## Loop predictors -/

namespace LoopPredictor

/-- The entry without its speculative count. -/
def Entry.firm (e : Entry) : Entry :=
  { e with specIteration := 0 }

/-- The loop predictor without its speculative counts. -/
def firm (p : LoopPredictor) : LoopPredictor where
  config := p.config
  entries := p.entries.map Entry.firm
  trust := p.trust

theorem firm_firm (p : LoopPredictor) : p.firm.firm = p.firm := by
  simp only [firm, Array.map_map]
  rfl

theorem firm_modifyEntry (p : LoopPredictor) (index : Nat) {f : Entry → Entry}
    (hf : ∀ e, (f e).firm = e.firm) : (p.modifyEntry index f).firm = p.firm := by
  simp only [firm, modifyEntry, map_modify_of_eq hf]

theorem firm_modifyHeld (p : LoopPredictor) (lookup : Lookup) {f : Entry → Entry}
    (hf : ∀ e, (f e).firm = e.firm) : (p.modifyHeld lookup f).firm = p.firm := by
  unfold modifyHeld
  split
  · split
    · exact p.firm_modifyEntry _ hf
    · rfl
  · rfl

theorem firm_speculate (p : LoopPredictor) (lookup : Lookup) (outcome : Direction) :
    (p.speculate lookup outcome).firm = p.firm :=
  p.firm_modifyHeld lookup fun _ => rfl

theorem firm_restore (p : LoopPredictor) (lookup : Lookup) : (p.restore lookup).firm = p.firm :=
  p.firm_modifyHeld lookup fun _ => rfl

/-- The speculative counts of the entries. -/
def counts (p : LoopPredictor) : List Nat :=
  p.entries.toList.map Entry.specIteration

theorem Entry.eq_of_firm {e f : Entry} (hfirm : e.firm = f.firm)
    (hcount : e.specIteration = f.specIteration) : e = f := by
  rcases e with ⟨tag, trip, iteration, count, confidence, age, body⟩
  rcases f with ⟨tag', trip', iteration', count', confidence', age', body'⟩
  obtain ⟨rfl, rfl, rfl, -, rfl, rfl, rfl⟩ := Entry.mk.inj hfirm
  exact congrArg (Entry.mk tag trip iteration · confidence age body) hcount

theorem entries_eq_of_firm {xs ys : List Entry} (hfirm : xs.map Entry.firm = ys.map Entry.firm)
    (hcounts : xs.map Entry.specIteration = ys.map Entry.specIteration) : xs = ys := by
  have hpairs : xs.map (fun e => (e.firm, e.specIteration)) =
      ys.map (fun e => (e.firm, e.specIteration)) := by
    rw [← List.zip_map', ← List.zip_map', hfirm, hcounts]
  refine List.map_injective_iff.2 ?_ hpairs
  intro e f heq
  obtain ⟨hfirm, hcount⟩ := Prod.mk.inj heq
  exact Entry.eq_of_firm hfirm hcount

theorem eq_of_firm {p q : LoopPredictor} (hfirm : p.firm = q.firm) (hcounts : p.counts = q.counts) :
    p = q := by
  rcases p with ⟨config, entries, trust⟩
  rcases q with ⟨config', entries', trust'⟩
  obtain ⟨rfl, hentries, rfl⟩ := LoopPredictor.mk.inj hfirm
  have hlists : entries.toList.map Entry.firm = entries'.toList.map Entry.firm := by
    rw [← Array.toList_map, ← Array.toList_map, hentries]
  exact congrArg (LoopPredictor.mk config · trust)
    (Array.toList_inj.1 (entries_eq_of_firm hlists hcounts))

end LoopPredictor

/-! ## TAGE-SC-L -/

namespace TageScl

instance : Firm TageScl where
  firm p := { p with loops? := p.loops?.map LoopPredictor.firm, random := .ofSeed 0 }
  random p := p.random
  counts p := p.loops?.elim [] LoopPredictor.counts

/-- A change of the speculative counts, made or not, is not firm. -/
theorem map_firm_eq {change : LoopPredictor → LoopPredictor}
    (hchange : ∀ loops, (change loops).firm = loops.firm) (test : Bool)
    (loops? : Option LoopPredictor) :
    (if test then loops?.map change else loops?).map LoopPredictor.firm =
      loops?.map LoopPredictor.firm := by
  split
  · rw [Option.map_map]
    exact congrArg (Option.map · loops?) (funext hchange)
  · rfl

theorem loops_eq_of_firm {loops? loops?' : Option LoopPredictor}
    (hfirm : loops?.map LoopPredictor.firm = loops?'.map LoopPredictor.firm)
    (hcounts : loops?.elim [] LoopPredictor.counts = loops?'.elim [] LoopPredictor.counts) :
    loops? = loops?' := by
  cases loops? with
  | none =>
      cases loops?' with
      | none => rfl
      | some loops' => cases hfirm
  | some loops =>
      cases loops?' with
      | none => cases hfirm
      | some loops' =>
          exact congrArg some (LoopPredictor.eq_of_firm (Option.some.inj hfirm) hcounts)

theorem keepsFirm : KeepsFirm TageScl where
  history_firm _ := rfl
  firm_apply p r b hwidth := by
    have hsame : (p.appended b).2 = (p.history, p.views) :=
      append_of_count_eq_zero p.history _ hwidth b.pc p.views
    have hloops := map_firm_eq (fun loops => loops.firm_speculate r.loop b.taken) (p.advances b)
      p.loops?
    change firm (apply p r b).1 = firm p
    rw [apply_eq, hsame]
    simp only [firm, views, hloops]
  firm_undo p r := by
    have hfirm : (p.loops?.map LoopPredictor.firm).map LoopPredictor.firm =
        p.loops?.map LoopPredictor.firm := by
      rw [Option.map_map]
      exact congrArg (Option.map · p.loops?) (funext LoopPredictor.firm_firm)
    change firm (undo (firm p) r).1 = firm (undo p r).1
    cases hc : r.contribution? with
    | none =>
        rw [undo_of_none _ hc, undo_of_none _ hc]
        simp only [firm, hfirm]
    | some contribution =>
        have hloops := map_firm_eq (fun loops => loops.firm_restore r.loop) r.loopAdvanced
        rw [undo_eq _ hc, undo_eq _ hc]
        simp only [firm, hloops, hfirm]
        rfl
  random_undo p q r b := rfl
  eq_of_firm := by
    rintro ⟨config, tage, loops?, corrector?, history, random, stats⟩
      ⟨config', tage', loops?', corrector?', history', random', stats'⟩ hfirm hrandom hcounts
    obtain ⟨rfl, rfl, hloops, rfl, rfl, -, rfl⟩ := TageScl.mk.inj hfirm
    have hsame : loops? = loops?' := loops_eq_of_firm hloops hcounts
    subst hsame
    exact congrArg (TageScl.mk config tage loops? corrector? history · stats) hrandom

end TageScl

end BranchPrediction
