import BranchPrediction.Proofs.Learning.Beliefs
import BranchPrediction.Proofs.Pipeline.Provenance
import BranchPrediction.Proofs.Pipeline.Reset
import BranchPrediction.Proofs.Safety.Regular

/-!
# Confidence and branches in flight

At the commit of an indirect jump or call the entry of the longest match gains or loses confidence.
What decides is whether the branch went to the target that its *record* remembers, which is the one
that the entry had when the branch was looked up.  As long as no other commit has taught the tables
in between, the entry still has it (`Session.RemembersAt`), and confidence follows the stored
target.

With several branches in flight it need not: an older commit may have replaced the target, and then
a younger one raises the confidence in a target to which its branch did not go
(`staleRun_raises_confidence`).
-/

namespace BranchPrediction

open SteppedPredictor Ladder

namespace Ittage

/-! ## Lookups and the entries they came from -/

/-- The longest match has the target that the lookup found in it. -/
def Remembers (ladder : Ladder Target) (l : Lookup) : Prop :=
  ∀ bank, l.hit? = some bank →
    ∃ belief, ladder.belief? l.slots bank = some belief ∧ belief.target? = l.longestTarget?

theorem remembers_of_eq_none {ladder : Ladder Target} {l : Lookup} (hhit : l.hit? = none) :
    Remembers ladder l := by
  intro bank hbank
  cases hhit.symm.trans hbank

theorem remembers_find (p : Ittage) (pc : UInt64) (isConditional : Bool) :
    Remembers p.ladder (p.find pc isConditional) := by
  rcases p.ladder.findMatches_cases (p.ladder.slots pc p.history.path) with
    ⟨hmatches, -⟩ | ⟨hit, alt?, hmatches, hmatch, -⟩
  · rw [find_of_none isConditional hmatches]
    exact remembers_of_eq_none rfl
  · obtain ⟨e, slot, he, -, -⟩ := (p.ladder.isMatch_eq_true_iff _).1 hmatch
    rw [find_of_some isConditional hmatches he]
    intro bank hbank
    obtain rfl := Option.some.inj hbank
    refine ⟨e.belief, ?_, rfl⟩
    change (p.ladder.entry? (p.ladder.slots pc p.history.path) hit).map TaggedEntry.belief = _
    rw [he, Option.map_some]

theorem Remembers.mapFolds {ladder : Ladder Target} {l : Lookup} (h : Remembers ladder l)
    (g : FoldedHistory → FoldedHistory) : Remembers (BranchPrediction.mapFolds g ladder) l := by
  intro bank hbank
  rw [belief?_mapFolds]
  exact h bank hbank

theorem exists_belief_of_accepts {p : Ittage} {r : Record} (haccepts : p.accepts r = true)
    (pc : UInt64) {bank : Nat} (hhit : (p.finalize r pc).lookup.hit? = some bank) :
    ∃ belief, p.ladder.belief? (p.finalize r pc).lookup.slots bank = some belief := by
  cases hstate : r.state with
  | provisional =>
      rw [finalize, hstate] at hhit ⊢
      obtain ⟨belief, hbelief, -⟩ := p.remembers_find pc r.isConditional bank hhit
      exact ⟨belief, hbelief⟩
  | finalized =>
      rw [finalize_of_finalized p hstate] at hhit ⊢
      simp only [accepts, hstate, reduceCtorEq, decide_false, Bool.false_or, Bool.and_eq_true, fits,
        hasBank, hhit, Option.all_some, decide_eq_true_eq] at haccepts
      obtain ⟨⟨hslots, hbank⟩, -⟩ := haccepts
      rw [ belief?, entry?, Array.getElem?_eq_getElem hbank,
        Array.getElem?_eq_getElem (hslots ▸ hbank)]
      exact ⟨_, rfl⟩

/-! ## One commit -/

/-- A successful commit of an indirect jump or call found its record to fit, and changed the belief
of the longest match according to the target that the record remembers. -/
theorem belief?_commit {p : Ittage} {r : Record} {b : Branch} {bank : Nat}
    (herror : (p.commit r b).error? = none) (hkind : b.kind.usesTargetTables = true)
    (hhit : (p.finalize r b.pc).lookup.hit? = some bank) :
    p.accepts r = true ∧
      (p.commit r b).predictor.ladder.belief? (p.finalize r b.pc).lookup.slots bank =
        (p.ladder.belief? (p.finalize r b.pc).lookup.slots bank).map (Belief.resolve
          ((p.finalize r b.pc).lookup.longestTarget? = some b.target) b.target) := by
  have hconclude : ∀ (q : Ittage) (r' : Record),
      (conclude q r' b).ladder = learn r' b.target q.ladder := by
    intro q r'
    rw [conclude_eq]
    exact if_pos hkind
  cases haccepts : p.accepts r with
  | false =>
      simp only [commit, haccepts, Bool.not_false, if_true] at herror
      cases herror
  | true =>
      refine ⟨rfl, ?_⟩
      simp only [commit, haccepts, Bool.not_true, Bool.false_eq_true, if_false] at herror ⊢
      cases hinserted : (p.finalize r b.pc).contribution?.isSome with
      | true =>
          rw [if_pos rfl, hconclude, belief?_learn hhit]
      | false =>
          rw [hinserted, if_neg Bool.false_ne_true] at herror
          rw [if_neg Bool.false_ne_true]
          cases hroom : p.appendError? b with
          | some error =>
              rw [hroom] at herror
              cases herror
          | none =>
              -- the history of the branch is inserted first, which moves folds only
              obtain ⟨g, happly⟩ := p.exists_ladder_apply (p.finalize r b.pc) b
              have hlookup := lookup_apply p (p.finalize r b.pc) b
              have hlearn := belief?_learn (r := (apply p (p.finalize r b.pc) b).2)
                (hlookup ▸ hhit) b.target (apply p (p.finalize r b.pc) b).1.ladder
              rw [hlookup, happly, belief?_mapFolds] at hlearn
              simp only [hconclude, happly]
              exact hlearn

end Ittage

/-- The call may change what the target tables have learned. -/
def Call.teaches : Call → Bool
  | commit _ b => b.kind.usesTargetTables
  | reset => true
  | _ => false

namespace Session

open Ittage

variable {s : Session Ittage Record} {h : Nat}

/-! ## Calls that teach nothing -/

/-- The target that a record remembers is still the one that the longest match has. -/
def RemembersAt (s : Session Ittage Record) (h : Nat) : Prop :=
  ∀ r, s.records h = some r → Remembers s.predictor.ladder r.lookup

theorem RemembersAt.put (hs : s.RemembersAt h) {q : Ittage} {g : FoldedHistory → FoldedHistory}
    (hladder : q.ladder = mapFolds g s.predictor.ladder) (k : Nat) {r? : Option Record}
    (hr : ∀ r, k = h → r? = some r → Remembers s.predictor.ladder r.lookup)
    (committed : List Record) : RemembersAt ⟨q, Session.put s.records k r?, committed⟩ h := by
  intro r hrecord
  change Session.put s.records k r? h = some r at hrecord
  change Remembers q.ladder r.lookup
  rw [hladder]
  by_cases hk : h = k
  · rw [hk, put_same] at hrecord
    exact (hr r hk.symm hrecord).mapFolds g
  · rw [put_of_ne _ hk] at hrecord
    exact (hs r hrecord).mapFolds g

theorem remembersAt_create (s : Session Ittage Record) (h : Nat) (predicted : Bool) (pc : UInt64)
    (isConditional : Bool) :
    (s.perform (.create h predicted pc isConditional)).1.RemembersAt h := by
  rw [perform_create]
  intro r hrecord
  rw [records_hold_self] at hrecord
  obtain rfl := Option.some.inj hrecord
  cases predicted with
  | true => exact remembers_find s.predictor pc isConditional
  | false => exact remembers_of_eq_none rfl

theorem RemembersAt.create (hs : s.RemembersAt h) (k : Nat) (predicted : Bool) (pc : UInt64)
    (isConditional : Bool) :
    (s.perform (.create k predicted pc isConditional)).1.RemembersAt h := by
  by_cases hk : h = k
  · subst hk
    exact remembersAt_create s h predicted pc isConditional
  · rw [perform_create]
    intro r hrecord
    rw [records_hold_of_ne s hk] at hrecord
    exact hs r hrecord

theorem RemembersAt.revise (hs : s.RemembersAt h) (k : Nat) (b : Branch) :
    (s.modify k fun p r => SpeculativePredictor.update p r b).1.RemembersAt h := by
  unfold modify
  split
  · exact hs
  · next r hrecord =>
      obtain ⟨⟨g, hladder⟩, hlookup⟩ := update_cases s.predictor r b
      refine hs.put hladder k ?_ s.committed
      intro r' hk hr'
      obtain rfl := Option.some.inj hr'
      rcases hlookup with hkept | hfound
      · rw [hkept]
        exact hs r (hk ▸ hrecord)
      · rw [hfound]
        exact remembers_find _ _ _

/-- A call that teaches nothing leaves every entry with its target. -/
theorem RemembersAt.perform (hs : s.RemembersAt h) {call : Call} (hcall : call.teaches = false) :
    (s.perform call).1.RemembersAt h := by
  cases call with
  | predict k pc isConditional => exact hs.create k true pc isConditional
  | placeholder k pc isConditional => exact hs.create k false pc isConditional
  | update k b => exact hs.revise k b
  | repair k b => exact hs.revise k b
  | commit k b =>
      simp only [Session.perform, release]
      split
      · exact hs
      · next r _ =>
          rcases commit_cases s.predictor r b with ⟨g, hladder⟩ | ⟨-, hkind, -⟩
          · exact hs.put hladder k (fun _ _ hr => by cases hr) _
          · cases hkind.symm.trans hcall
  | squash k =>
      simp only [Session.perform, release]
      split
      · exact hs
      · next r _ =>
          obtain ⟨g, hladder⟩ := squash_cases s.predictor r
          exact hs.put hladder k (fun _ _ hr => by cases hr) _
  | reset => cases hcall

theorem RemembersAt.run (hs : s.RemembersAt h) {calls : List Call}
    (hcalls : ∀ call ∈ calls, call.teaches = false) : (s.run calls).RemembersAt h := by
  induction calls generalizing s with
  | nil => exact hs
  | cons call calls ih =>
      obtain ⟨hcall, hrest⟩ := List.forall_mem_cons.1 hcalls
      exact ih (hs.perform hcall) hrest

/-- A record still remembers the stored target when nothing has been taught since it was made. -/
theorem remembersAt_run (s : Session Ittage Record) {first rest : List Call} (predicted : Bool)
    (pc : UInt64) (isConditional : Bool) (hrest : ∀ call ∈ rest, call.teaches = false) :
    (s.run (first ++ .create h predicted pc isConditional :: rest)).RemembersAt h := by
  rw [run_append, run_cons]
  exact (remembersAt_create _ h predicted pc isConditional).run hrest

theorem confidence_range_run {c : Ittage.Config} {p : Ittage} (hbuild : c.build = .ok p)
    (calls : List Call) {slots : Array Slot} {bank : Nat} {belief : Belief}
    (hbelief : ((start p).run calls).predictor.ladder.belief? slots bank = some belief) :
    belief.confidence.range.min < belief.confidence.range.max := by
  obtain ⟨hvalid, -, -⟩ := build_eq_ok hbuild
  have hblank : p.ladder = .blank c.ladder := by
    obtain ⟨-, -, history, -, rfl⟩ := exists_of_build hbuild
    rfl
  have hreset : ((start p).run calls).predictor.ladder.reset = .blank c.ladder :=
    (congrArg Ittage.ladder (reset_run hbuild calls)).trans hblank
  obtain ⟨e, he, rfl⟩ := Option.map_eq_some_iff.1 hbelief
  have hrange := ((entrywise_of_reset hreset).holdsAt slots bank e he).1
  obtain ⟨hsupports, -, -⟩ := c.ladder.counters_of_validate (c.ladder_of_validate hvalid)
  change e.confidence.range.min < e.confidence.range.max
  rw [hrange]
  simp only [Counter.Range.supports, Bool.and_eq_true, decide_eq_true_eq] at hsupports
  have hpow := Nat.one_lt_two_pow (n := c.ladder.confidenceBits) (by omega)
  simp only [Payload.confidenceRange, Counter.Range.unsigned, Nat.one_shiftLeft]
  omega

end Session

open Session in
/-- Confidence follows the target that a record remembers.  For every run of a predictor that was
built, with any number of branches in flight, and every commit of an indirect jump or call that
succeeds through a record with a longest match: the longest match is an entry, and its belief is
confirmed or not according to the target that the record remembers.  That is what the stored target
would decide if and only if both targets agree on where the branch went; and the two are equal if
nothing has been taught since the record was made. -/
theorem confidence_follows_remembered_target {c : Ittage.Config} {p : Ittage}
    (hbuild : c.build = .ok p) (calls : List Call) {h : Nat} {r : Ittage.Record} {b : Branch}
    {bank : Nat} (hrecord : ((start p).run calls).records h = some r)
    (hkind : b.kind.usesTargetTables = true)
    (herror : (((start p).run calls).perform (.commit h b)).2 = none)
    (hhit : (((start p).run calls).predictor.finalize r b.pc).lookup.hit? = some bank) :
    let s := (start p).run calls
    let l := (s.predictor.finalize r b.pc).lookup
    let after? := (s.perform (.commit h b)).1.predictor.ladder.belief? l.slots bank
    ∃ belief, s.predictor.ladder.belief? l.slots bank = some belief ∧
      after? = some (belief.resolve (l.longestTarget? = some b.target) b.target) ∧
      (after? = some (belief.resolve (belief.target? = some b.target) b.target) ↔
        (belief.target? = some b.target ↔ l.longestTarget? = some b.target)) ∧
      ∀ first rest predicted pc isConditional,
        calls = first ++ .create h predicted pc isConditional :: rest →
          (∀ call ∈ rest, call.teaches = false) → belief.target? = l.longestTarget? := by
  intro s l after?
  have hperform : s.perform (.commit h b) = s.release h (fun r => [r]) fun p r =>
      SpeculativePredictor.commit p r b := rfl
  simp only [release, hrecord, s] at hperform
  rw [hperform] at herror
  obtain ⟨haccepts, hcommit⟩ := Ittage.belief?_commit herror hkind hhit
  obtain ⟨belief, hbelief⟩ := Ittage.exists_belief_of_accepts haccepts b.pc hhit
  have hafter : after? = some (belief.resolve (l.longestTarget? = some b.target) b.target) := by
    simp only [after?, s, hperform]
    exact hcommit.trans (by rw [hbelief, Option.map_some])
  refine ⟨belief, hbelief, hafter, ?_, ?_⟩
  · rw [hafter, Option.some_inj, Belief.resolve_inj (confidence_range_run hbuild calls hbelief),
      decide_eq_decide]
    exact Iff.comm
  · rintro first rest predicted pc isConditional rfl hrest
    have hremembers := remembersAt_run (start p) predicted pc isConditional hrest r hrecord
    have hlookup : Ittage.Remembers s.predictor.ladder (s.predictor.finalize r b.pc).lookup := by
      rcases s.predictor.lookup_finalize r b.pc with hkept | hfound
      · rwa [hkept]
      · rw [hfound]
        exact s.predictor.remembers_find b.pc r.isConditional
    obtain ⟨belief', hbelief', htarget⟩ := hlookup bank hhit
    obtain rfl := Option.some.inj (hbelief.symm.trans hbelief')
    exact htarget

/-- A configuration of ITTAGE in which jumps insert no history, so that a jump keeps its slot. -/
def Ittage.stillConfig : Config :=
  { smallConfig with indirectJumpBits := 0 }

def Ittage.still : Ittage :=
  { small with config := stillConfig }

/-- A jump commits and is fetched twice again; then the older of the two goes elsewhere. -/
def staleRun : List Call :=
  [.predict 0 4 false, .commit 0 ⟨4, .indirectJump, .taken, 64⟩,
    .predict 1 4 false, .update 1 ⟨4, .indirectJump, .taken, 64⟩,
    .predict 2 4 false, .update 2 ⟨4, .indirectJump, .taken, 64⟩,
    .commit 1 ⟨4, .indirectJump, .taken, 32⟩]

def staleSlots : Array Slot :=
  #[⟨1, 0⟩]

theorem staleRun_follows_remembered_target :
    let s := (Session.start Ittage.still).run staleRun
    ∃ r belief, s.records 2 = some r ∧ r.lookup.longestTarget? = some 64 ∧
      s.predictor.ladder.belief? staleSlots 0 = some belief ∧ belief.target? = some 32 ∧
      (s.perform (.commit 2 ⟨4, .indirectJump, .taken, 64⟩)).1.predictor.ladder.belief?
        staleSlots 0 = some (belief.resolve true 64) := by
  intro s
  have hsome : (s.records 2).isSome = true := by decide +kernel
  obtain ⟨r, hr⟩ := Option.isSome_iff_exists.1 hsome
  have hlookup : (s.records 2).map (fun r => (s.predictor.finalize r 4).lookup) =
      some { slots := staleSlots, hit? := some 0, source := .longestMatch,
             longestTarget? := some 64, pseudoNew := true, target? := some 64 } := by
    decide +kernel
  have hkept : (s.records 2).map (fun r => r.lookup.longestTarget?) = some (some 64) := by
    decide +kernel
  have hstored : (s.predictor.ladder.belief? staleSlots 0).map (·.target?) = some (some 32) := by
    decide +kernel
  rw [hr, Option.map_some, Option.some_inj] at hlookup hkept
  have hbuild : Ittage.stillConfig.build = .ok Ittage.still := rfl
  obtain ⟨belief, hbelief, hafter, -⟩ := confidence_follows_remembered_target hbuild staleRun
    (b := ⟨4, .indirectJump, .taken, 64⟩) hr rfl (by decide +kernel)
    (congrArg Ittage.Lookup.hit? hlookup)
  rw [hlookup] at hbelief hafter
  refine ⟨r, belief, hr, hkept, hbelief, ?_, hafter⟩
  rw [hbelief, Option.map_some, Option.some_inj] at hstored
  exact hstored

/-- The younger of the two jumps raises the confidence in the target of the older one, to which it
did not go. -/
theorem staleRun_raises_confidence :
    let s := (Session.start Ittage.still).run staleRun
    let t := (s.perform (.commit 2 ⟨4, .indirectJump, .taken, 64⟩)).1
    Ittage.stillConfig.build = .ok Ittage.still ∧
      (s.records 2).map (fun r => (r.lookup.slots, r.lookup.hit?)) = some (staleSlots, some 0) ∧
      (s.perform (.commit 2 ⟨4, .indirectJump, .taken, 64⟩)).2 = none ∧
      (s.predictor.ladder.belief? staleSlots 0).map (fun b => (b.confidence.value, b.target?)) =
        some (0, some 32) ∧
      (t.predictor.ladder.belief? staleSlots 0).map (fun b => (b.confidence.value, b.target?)) =
        some (1, some 32) :=
  ⟨rfl, by decide +kernel, by decide +kernel, by decide +kernel, by decide +kernel⟩

end BranchPrediction
