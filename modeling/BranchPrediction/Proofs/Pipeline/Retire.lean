import BranchPrediction.Proofs.History.Rollback
import BranchPrediction.Proofs.Pipeline.Rewind

/-!
# Committing the oldest branch

`Retires` collects what a predictor must satisfy, beside the laws of `Rewinds`, for its older
branches to commit under younger ones: what a commit learns does not touch what the younger ones
have inserted, and the bits that it retires are among those in flight.

The session with several branches in flight is `raise`d from the one that the commits so far have
made, and the commit of the oldest branch passes through all the others
(`Retires.perform_commit_raise`).
-/

namespace BranchPrediction

open SteppedPredictor

/-! ## What a commit retires -/

namespace SpeculativeHistory

/-- The history once the contribution of a record, if it made one, is retired. -/
def retired (h : SpeculativeHistory) (contribution? : Option Contribution) : SpeculativeHistory :=
  match contribution? with
  | none => h
  | some c => h.retire c.checkpoint

/-- The bits of a contribution, if there is one, are among those in flight. -/
def Counts (h : SpeculativeHistory) (contribution? : Option Contribution) : Prop :=
  ∀ c, contribution? = some c → c.checkpoint.count ≤ h.inFlight

theorem register_retired (h : SpeculativeHistory) (contribution? : Option Contribution) :
    (h.retired contribution?).register = h.register := by
  cases contribution? with
  | none => rfl
  | some c => rfl

section Append

variable {α : Type} [HistoryView α] (h : SpeculativeHistory) (bits : UInt64) (count : Nat)
  (pc : UInt64) (views : α)

theorem inFlight_append : (h.append bits count pc views).2.1.inFlight = h.inFlight + count :=
  rfl

theorem counts_appended (random : Xorshift) :
    (h.append bits count pc views).2.1.Counts
      (some ⟨(h.append bits count pc views).1, random⟩) := by
  intro c hc
  obtain rfl := Option.some.inj hc
  change count ≤ (h.append bits count pc views).2.1.inFlight
  rw [inFlight_append]
  omega

variable {h} {contribution? : Option Contribution}

theorem Counts.append (hcounts : h.Counts contribution?) :
    (h.append bits count pc views).2.1.Counts contribution? := by
  intro c hc
  have hle := hcounts c hc
  rw [inFlight_append]
  omega

/-- An append and what a commit retires can be exchanged. -/
theorem retired_append (hcounts : h.Counts contribution?) :
    (h.retired contribution?).append bits count pc views =
      ((h.append bits count pc views).1,
        (h.append bits count pc views).2.1.retired contribution?,
        (h.append bits count pc views).2.2) := by
  cases contribution? with
  | none => rfl
  | some c => exact retire_append h bits count pc views (hcounts c rfl)

end Append

/-- Retirement makes room. -/
theorem appendError?_retired {h : SpeculativeHistory} {count : Nat}
    (hroom : h.appendError? count = none) (contribution? : Option Contribution) :
    (h.retired contribution?).appendError? count = none := by
  cases contribution? with
  | none => exact hroom
  | some c =>
      have hcount := count_le_of_appendError? hroom
      have hfits := lt_of_appendError? hroom
      have hfits' : ¬h.register.size ≤ h.inFlight - c.checkpoint.count + count + h.longest := by
        omega
      simp [retired, retire, appendError?, overflow?, hfits', show ¬64 < count by omega]

end SpeculativeHistory

/-! ## Branches in flight over a base -/

/-- A branch in flight: its record as it was before its first update, and the branch whose history
is inserted. -/
structure Flight (R : Type) where
  handle : Nat
  record : R
  branch : Branch

variable {P R Q : Type} [SpeculativePredictor P R Q] [SteppedPredictor P]

namespace Session

def raise (s : Session P R) (flights : List (Flight R)) : Session P R :=
  flights.foldr (fun f s => s.push f.handle f.record f.branch) s

theorem raise_cons (s : Session P R) (f : Flight R) (older : List (Flight R)) :
    s.raise (f :: older) = (s.raise older).push f.handle f.record f.branch :=
  rfl

theorem raise_append (s : Session P R) (younger older : List (Flight R)) :
    s.raise (younger ++ older) = (s.raise older).raise younger :=
  List.foldr_append

theorem raise_concat (s : Session P R) (flights : List (Flight R)) (f : Flight R) :
    s.raise (flights ++ [f]) = (s.push f.handle f.record f.branch).raise flights :=
  List.foldr_append

theorem committed_raise (s : Session P R) (flights : List (Flight R)) :
    (s.raise flights).committed = s.committed := by
  induction flights with
  | nil => rfl
  | cons f older ih => exact ih

theorem records_raise_of_notMem {s : Session P R} {flights : List (Flight R)} {h : Nat}
    (hnew : h ∉ flights.map Flight.handle) : (s.raise flights).records h = s.records h := by
  induction flights with
  | nil => rfl
  | cons f older ih =>
      rw [List.map_cons, List.mem_cons, not_or] at hnew
      rw [raise_cons, records_push_of_ne _ hnew.1]
      exact ih hnew.2

/-- The session after the commit of a branch with a contribution. -/
def settle (s : Session P R) (h : Nat) (r : R) (b : Branch) : Session P R :=
  ⟨conclude s.predictor r b, put s.records h none, r :: s.committed⟩

theorem records_settle_push {s : Session P R} (hrecords : ∀ k, s.records k = none) (h : Nat)
    (r r' : R) (b b' : Branch) (k : Nat) : ((s.push h r b).settle h r' b').records k = none := by
  by_cases hk : k = h
  · subst hk
    exact put_same _ _ _
  · refine (put_of_ne _ hk none).trans ?_
    rw [records_push_of_ne _ hk, hrecords]

theorem perform_commit {s : Session P R} {h : Nat} {r : R} {b : Branch}
    (hrecord : s.records h = some r) (haccepts : accepts s.predictor r = true)
    (hfinal : finalize s.predictor r b.pc = r) (hsome : (contribution? P r).isSome = true) :
    s.perform (.commit h b) = (s.settle h r b, none) := by
  simp only [perform, release, hrecord, commit_eq, haccepts, hfinal, hsome, Bool.not_true,
    Bool.false_eq_true, if_false, if_true]
  rfl

end Session

open Session

/-- Each branch in flight is anchored to the state that the older ones leave, and there was room
for its history. -/
def Stands (Sound : P → Prop) (Anchored : P → R → Prop) (s : Session P R) :
    List (Flight R) → Prop
  | [] => Sound s.predictor
  | f :: older =>
    Stands Sound Anchored s older ∧ (s.raise older).records f.handle = none ∧
      Anchored (s.raise older).predictor f.record ∧
      appendError? (s.raise older).predictor f.branch = none

namespace Rewinds

variable {Sound : P → Prop} {Anchored : P → R → Prop}

theorem sound_raise (laws : Rewinds Sound Anchored) {s : Session P R}
    {flights : List (Flight R)} (hstands : Stands Sound Anchored s flights) :
    Sound (s.raise flights).predictor := by
  induction flights with
  | nil => exact hstands
  | cons f older ih => exact laws.kept.apply (ih hstands.1) _ _

theorem stands_concat {s : Session P R} {flights : List (Flight R)} {f : Flight R}
    (laws : Rewinds Sound Anchored) :
    Stands Sound Anchored s (flights ++ [f]) ↔
      Stands Sound Anchored s [f] ∧
        Stands Sound Anchored (s.push f.handle f.record f.branch) flights := by
  induction flights with
  | nil =>
      constructor
      · intro hstands
        exact ⟨hstands, laws.kept.apply hstands.1 _ _⟩
      · exact fun hstands => hstands.1
  | cons g older ih =>
      rw [List.cons_append, Stands, Stands, raise_concat, ih]
      exact and_assoc

theorem stands_append (laws : Rewinds Sound Anchored) {s : Session P R}
    {younger older : List (Flight R)} (hstands : Stands Sound Anchored s (younger ++ older)) :
    Stands Sound Anchored s older ∧ Stands Sound Anchored (s.raise older) younger := by
  induction younger with
  | nil => exact ⟨hstands, laws.sound_raise hstands⟩
  | cons f younger ih =>
      rw [List.cons_append, Stands, raise_append] at hstands
      obtain ⟨hbelow, hfirst⟩ := hstands
      obtain ⟨hbase, hyounger⟩ := ih hbelow
      exact ⟨hbase, hyounger, hfirst⟩

end Rewinds

/-- The laws of a predictor whose older branches can commit under younger ones.  `Counted` says
that the bits of a record are among those in flight. -/
structure Retires (Sound : P → Prop) (Anchored : P → R → Prop) (Counted : P → R → Prop) : Prop
    extends Rewinds Sound Anchored where
  counted_applied : ∀ (p : P) (r : R) (b : Branch), Counted (apply p r b).1 (apply p r b).2
  counted_apply : ∀ {p : P} {r' : R}, Counted p r' → ∀ (r : R) (b : Branch),
    Counted (apply p r b).1 r'
  apply_conclude : ∀ {p : P} {r' : R}, Sound p → Counted p r' →
    ∀ (b' : Branch) (r : R) (b : Branch),
    apply (conclude p r' b') r b = (conclude (apply p r b).1 r' b', (apply p r b).2)
  anchored_conclude : ∀ {p : P} {r : R}, Sound p → Anchored p r → ∀ (r' : R) (b' : Branch),
    Anchored (conclude p r' b') r
  appendError?_conclude : ∀ {p : P} {b : Branch}, appendError? p b = none →
    ∀ (r' : R) (b' : Branch), appendError? (conclude p r' b') b = none

namespace Retires

variable {Sound : P → Prop} {Anchored Counted : P → R → Prop}

theorem handle_ne {s : Session P R} {flights : List (Flight R)} {h : Nat} {r : R}
    (hstands : Stands Sound Anchored s flights) (hrecord : s.records h = some r) :
    (s.raise flights).records h = some r ∧ ∀ f ∈ flights, f.handle ≠ h := by
  induction flights with
  | nil => exact ⟨hrecord, fun f hf => by cases hf⟩
  | cons f older ih =>
      obtain ⟨hbelow, hfresh, -, -⟩ := hstands
      obtain ⟨hraised, hothers⟩ := ih hbelow
      have hne : h ≠ f.handle := by
        rintro rfl
        rw [hraised] at hfresh
        cases hfresh
      refine ⟨?_, ?_⟩
      · rw [raise_cons, records_push_of_ne _ hne, hraised]
      · intro g hg
        rcases List.mem_cons.1 hg with rfl | hmem
        · exact hne.symm
        · exact hothers g hmem

/-! ## Commits under branches in flight -/

theorem counted_raise (laws : Retires Sound Anchored Counted) {s : Session P R} {r : R}
    (hcounted : Counted s.predictor r) (flights : List (Flight R)) :
    Counted (s.raise flights).predictor r := by
  induction flights with
  | nil => exact hcounted
  | cons f older ih => exact laws.counted_apply ih _ _

/-- A commit passes through a branch in flight above it. -/
theorem settle_push (laws : Retires Sound Anchored Counted) {s : Session P R} {h k : Nat}
    {r r' : R} (hs : Sound s.predictor) (hcounted : Counted s.predictor r) (hne : k ≠ h)
    (b b' : Branch) :
    (s.push k r' b').settle h r b = (s.settle h r b).push k r' b' := by
  have happly := laws.apply_conclude hs hcounted b r' b'
  simp only [settle, push, happly, put_comm _ hne]

/-- A commit passes through all branches in flight above it. -/
theorem settle_raise (laws : Retires Sound Anchored Counted) {s : Session P R} {h : Nat} {r : R}
    (hcounted : Counted s.predictor r) {flights : List (Flight R)}
    (hne : ∀ f ∈ flights, f.handle ≠ h) (b : Branch) (hstands : Stands Sound Anchored s flights) :
    (s.raise flights).settle h r b = (s.settle h r b).raise flights := by
  induction flights with
  | nil => rfl
  | cons f older ih =>
      have hothers : ∀ g ∈ older, g.handle ≠ h := fun g hg => hne g (List.mem_cons_of_mem f hg)
      rw [raise_cons, laws.settle_push (laws.sound_raise hstands.1)
        (laws.counted_raise hcounted older) (hne f (by simp)), ih hothers hstands.1, ← raise_cons]

theorem stands_settle (laws : Retires Sound Anchored Counted) {s : Session P R} {h : Nat} {r : R}
    (hcounted : Counted s.predictor r) {flights : List (Flight R)}
    (hne : ∀ f ∈ flights, f.handle ≠ h) (b : Branch)
    (hstands : Stands Sound Anchored s flights) :
    Stands Sound Anchored (s.settle h r b) flights := by
  induction flights with
  | nil => exact laws.kept.conclude hstands r b
  | cons f older ih =>
      obtain ⟨hbelow, hfresh, hanchored, hroom⟩ := hstands
      have hothers : ∀ g ∈ older, g.handle ≠ h := fun g hg => hne g (List.mem_cons_of_mem f hg)
      refine ⟨ih hothers hbelow, ?_⟩
      rw [← laws.settle_raise hcounted hothers b hbelow]
      refine ⟨?_, laws.anchored_conclude (laws.sound_raise hbelow) hanchored r b,
        laws.appendError?_conclude hroom r b⟩
      exact (put_of_ne _ (hne f (by simp)) none).trans hfresh

/-- The commit of the oldest branch in flight settles it under all the others. -/
theorem perform_commit_raise (laws : Retires Sound Anchored Counted) {s : Session P R}
    {flights : List (Flight R)} {f : Flight R} (b : Branch)
    (hstands : Stands Sound Anchored s (flights ++ [f])) :
    ∃ base : Session P R,
      base = (s.push f.handle f.record f.branch).settle f.handle
        (apply s.predictor f.record f.branch).2 b ∧
      (s.raise (flights ++ [f])).perform (.commit f.handle b) = (base.raise flights, none) ∧
      Stands Sound Anchored base flights := by
  obtain ⟨⟨hsound, hfresh, hanchored, hroom⟩, habove⟩ := laws.stands_concat.1 hstands
  have hrecord := s.records_push_self f.handle f.record f.branch
  obtain ⟨hraised, hne⟩ := handle_ne habove hrecord
  have hcounted : Counted (s.push f.handle f.record f.branch).predictor
      (apply s.predictor f.record f.branch).2 := laws.counted_applied _ _ _
  have haccepts : ∀ older : List (Flight R),
      accepts ((s.push f.handle f.record f.branch).raise older).predictor
        (apply s.predictor f.record f.branch).2 = true := by
    intro older
    induction older with
    | nil => exact laws.accepts_push hanchored f.branch
    | cons g older ih => exact (laws.accepts_apply _ _ _ _).trans ih
  refine ⟨_, rfl, ?_, laws.stands_settle hcounted hne b habove⟩
  have hsome := laws.isSome_contribution?_applied s.predictor f.record f.branch
  have hfinal := laws.finalize_applied hanchored f.branch
    ((s.push f.handle f.record f.branch).raise flights).predictor b.pc
  rw [raise_concat, ← laws.settle_raise hcounted hne b habove]
  exact perform_commit hraised (haccepts flights) hfinal hsome

end Retires

end BranchPrediction
