import BranchPrediction.Proofs.Learning.Mistakes
import BranchPrediction.Proofs.Pipeline.Installed
import BranchPrediction.Proofs.Pipeline.TargetAllocations

/-!
# A new entry takes effect at once

A commit that allocates gives one table past the longest match an entry for the branch.  The next
search at the same slots finds it first, and the longest match of before is its alternate: no table
past the old longest match answered, and the commit makes no other table answer, whatever else it
trains, replaces or ages.  The new entry is fresh, and stands for what the branch did.

Which table got an entry shows in the tags: an entry past the longest match does not carry the tag
of the branch, so that it is new exactly if its tag has changed (`Ladder.reassigned_iff`), and this
happens in one table exactly if an allocation is counted.
-/

namespace BranchPrediction

open Ladder SteppedPredictor

/-! ## Entries that changed hands -/

namespace Ladder

variable {P : Type}

/-- At its slot, the table has an entry of another tag than before. -/
def Reassigned (before after : Ladder P) (slots : Array Slot) (bank : Nat) : Prop :=
  (after.entry? slots bank).map (·.tag?) ≠ (before.entry? slots bank).map (·.tag?)

/-- If a change gives one table past the longest match an entry for its slot, and keeps the tags of
the others, then that entry is the one that changed hands. -/
theorem reassigned_iff [Payload P] {before after : Ladder P} {slots : Array Slot}
    (hinstalled : before.Entrywise TaggedEntry.Installed)
    {change : Nat → Slot → TaggedEntry P → TaggedEntry P} {received? : Option Nat}
    (hentry : ∀ bank slot, slots[bank]? = some slot →
      after.entry? slots bank = (before.entry? slots bank).map (change bank slot))
    (hnew : ∀ bank slot e, received? = some bank → (change bank slot e).tag? = some slot.tag)
    (hold : ∀ bank slot e, received? ≠ some bank → (change bank slot e).tag? = e.tag?)
    (hreceived : ∀ bank, received? = some bank →
      past (before.findMatches slots).1 ≤ bank ∧ ∃ e, before.entry? slots bank = some e)
    (bank : Nat) : Reassigned before after slots bank ↔ received? = some bank := by
  constructor
  · intro hreassigned
    by_contra hother
    apply hreassigned
    cases hslot : slots[bank]? with
    | none => simp [ entry?, hslot]
    | some slot =>
        rw [hentry bank slot hslot, Option.map_map]
        exact congrArg (Option.map · _) (funext fun e => hold bank slot e hother)
  · intro hbank hsame
    obtain ⟨hpast, e, he⟩ := hreceived bank hbank
    obtain ⟨slot, hslot⟩ := exists_slot_of_entry he
    rw [hentry bank slot hslot, he, Option.map_some, Option.map_some, Option.map_some,
      hnew bank slot e hbank, Option.some_inj] at hsame
    have hmatch : before.isMatch slots bank = true := by
      refine (before.isMatch_eq_true_iff slots).2 ⟨e, slot, he, hslot, ?_⟩
      exact ((hinstalled.holdsAt slots bank e he).isMatch_iff _).2 hsame.symm
    rw [isMatch_eq_false_of_past hpast] at hmatch
    cases hmatch

end Ladder

/-! ## TAGE -/

namespace Tage

section Commit

variable {base : Bimodal.Config} {c : Ladder.Config} {t : Tage} {p : Prediction}
  {outcome finalOutcome : Direction} {skip : Bool}

theorem allocations_commit (hdescend : Descend p.hit? p.alt?) :
    (t.commit p outcome finalOutcome skip).ladder.stats.allocations =
      t.ladder.stats.allocations + (t.received? p outcome finalOutcome skip).isSome.toNat := by
  obtain ⟨hallocations, -⟩ := t.counts_commit outcome finalOutcome skip hdescend
  rw [hallocations]
  cases hreceived : t.received? p outcome finalOutcome skip with
  | none => rw [Option.isSome_none, Bool.and_false]
  | some bank =>
      have hdue := (received?_spec hreceived).1
      have hcandidates : t.ladder.candidates p.hit? skip ≠ [] := by
        rw [received?, if_pos hdue] at hreceived
        exact List.ne_nil_of_mem (List.mem_of_find?_eq_some hreceived)
      simp [hdue, hcandidates]

theorem reassigned_commit_iff (hhit : p.hit? = (t.ladder.findMatches p.slots).1)
    (hdescend : Descend p.hit? p.alt?) (bank : Nat) :
    Reassigned t.ladder (t.commit p outcome finalOutcome skip).ladder p.slots bank ↔
      t.received? p outcome finalOutcome skip = some bank := by
  refine reassigned_iff t.ladder.installed_signOnly
    (fun _ _ hslot => entry?_commit hdescend hslot) ?_ ?_ ?_ bank
  · intro bank slot e hreceived
    rw [TaggedEntry.tag?_settle, lesson_of_received? hdescend hreceived]
    rfl
  · intro bank slot e hother
    rw [TaggedEntry.tag?_settle, tag?_lesson hother]
  · intro bank hreceived
    obtain ⟨-, -, hpast, e, he, -⟩ := received?_spec hreceived
    exact ⟨hhit ▸ hpast, e, he⟩

end Commit

theorem isWeak_set_initialConfidence {k : Counter} {bits : Nat} (h : k.range = .signed bits)
    (o : Direction) : (k.set (initialConfidence o)).isWeak = true := by
  have hpow := Nat.two_pow_pos (bits - 1)
  simp only [Counter.isWeak, Counter.value_set, Counter.range_set, h, Counter.Range.signed,
    Nat.one_shiftLeft, Bool.or_eq_true, decide_eq_true_eq]
  cases o with
  | taken =>
      simp only [initialConfidence]
      omega
  | notTaken =>
      simp only [initialConfidence]
      omega

/-- The prediction that follows a commit which allocated. -/
theorem predict_commit_of_received {base : Bimodal.Config} {c : Ladder.Config} {t : Tage}
    (ht : t.Regular base c) (pc : UInt64) (path : PathHistory) (conditional : Bool)
    (outcome finalOutcome : Direction) (skip : Bool) {bank : Nat}
    (hreceived : t.received? (t.predict pc path conditional) outcome finalOutcome skip =
      some bank) :
    let p := t.predict pc path conditional
    let next := (t.commit p outcome finalOutcome skip).predict pc path conditional
    next.hit? = some bank ∧ next.alt? = p.hit? ∧ next.pseudoNew = true ∧
      next.longestOutcome = outcome := by
  intro p next
  obtain ⟨hslots, hhit, hdescend⟩ := t.hit?_predict pc path conditional
  obtain ⟨hsame, -⟩ := slots_commit (t := t) hdescend outcome finalOutcome skip pc path
  set u := t.commit p outcome finalOutcome skip with hu
  have hfind : u.ladder.findMatches (u.ladder.slots pc path) = (some bank, p.hit?) := by
    rw [hsame, ← hslots, hu, findMatches_commit hhit hdescend, hreceived, Option.elim_some]
  obtain ⟨-, -, -, old, hold, -⟩ := received?_spec hreceived
  obtain ⟨slot, hslot⟩ := exists_slot_of_entry hold
  have hrange := range_of_entry ht hold
  have hentry : u.ladder.entry? (u.ladder.slots pc path) bank =
      some ((old.allocate slot.tag (initialConfidence outcome) ⟨⟩).settle t.ladder.isDue) := by
    rw [hsame, ← hslots, hu, entry?_commit hdescend hslot, hold, Option.map_some,
      lesson_of_received? hdescend hreceived]
  obtain ⟨-, hnextHit, hnextAlt, -⟩ := u.predict_selection pc path conditional
  obtain ⟨hlongest, hnew, -, -⟩ := u.predict_of_some conditional hfind hentry
  rw [hfind] at hnextHit hnextAlt
  refine ⟨hnextHit, hnextAlt, hnew.trans ?_, hlongest.trans ?_⟩
  · change Counter.isWeak _ = true
    rw [TaggedEntry.confidence_settle]
    exact isWeak_set_initialConfidence hrange outcome
  · rw [TaggedEntry.confidence_settle]
    exact predict_set_initialConfidence hrange outcome

end Tage

/-! ## ITTAGE -/

namespace Ittage

section Learn

variable {r : Record} {target : UInt64} {ladder : Ladder Target}

theorem tag?_weaken (target : UInt64) (e : TaggedEntry Target) :
    (weaken target e).tag? = e.tag? := by
  unfold weaken
  simp only
  split
  · rfl
  · rfl

theorem tag?_drill (l : Lookup) (target : UInt64) (bank : Nat) (e : TaggedEntry Target) :
    (drill l target bank e).tag? = e.tag? := by
  have hkept : (if l.longestTarget? = some target then e.stepConfidence true
      else weaken target e).tag? = e.tag? := by
    split
    · rfl
    · exact tag?_weaken target e
  unfold drill
  split
  · simp only
    split
    · exact hkept
    · exact hkept
  · rfl

theorem tag?_lesson {bank : Nat} (h : received? r target ladder ≠ some bank) (slot : Slot)
    (e : TaggedEntry Target) : (lesson r target ladder bank slot e).tag? = e.tag? := by
  rw [lesson, tag?_drill, grant, if_neg h]
  split
  · rfl
  · rfl

theorem reassigned_learn_iff (hinstalled : ladder.Entrywise TaggedEntry.Installed)
    (hhit : r.lookup.hit? = (ladder.findMatches r.lookup.slots).1) (bank : Nat) :
    Reassigned ladder (learn r target ladder) r.lookup.slots bank ↔
      received? r target ladder = some bank := by
  refine reassigned_iff hinstalled (fun _ _ hslot => entry?_learn hslot) ?_ ?_ ?_ bank
  · intro bank slot e hreceived
    rw [TaggedEntry.tag?_settle, lesson_of_received? hreceived]
    rfl
  · intro bank slot e hother
    rw [TaggedEntry.tag?_settle, tag?_lesson hother]
  · intro bank hreceived
    obtain ⟨-, -, hpast, e, he, -⟩ := received?_spec hreceived
    exact ⟨hhit ▸ hpast, e, he⟩

end Learn

/-- The lookup that follows training which allocated. -/
theorem find_train_of_received (p : Ittage) (pc : UInt64) (isConditional : Bool) {r : Record}
    (hr : r.lookup = p.find pc isConditional) {target : UInt64} {bank : Nat}
    (hreceived : received? r target p.ladder = some bank) :
    let next := (p.train r target).find pc isConditional
    next.hit? = some bank ∧ next.alt? = r.lookup.hit? ∧ next.pseudoNew = true ∧
      next.longestTarget? = some target := by
  intro next
  obtain ⟨hslots, hhit, -⟩ := p.find_selection pc isConditional
  rw [← hr] at hslots hhit
  have hladder : (p.train r target).ladder = learn r target p.ladder := by
    rw [train_eq]
    rfl
  have hpath : (p.train r target).history.path = p.history.path := by
    rw [train_eq]
    rfl
  have hsame : (p.train r target).ladder.slots pc (p.train r target).history.path =
      r.lookup.slots := by
    rw [hladder, hpath, hslots]
    exact (slots_learn target p.ladder pc p.history.path).1
  have hfind : (p.train r target).ladder.findMatches r.lookup.slots =
      (some bank, r.lookup.hit?) := by
    rw [hladder, findMatches_learn (hslots ▸ hhit), hreceived, Option.elim_some]
  obtain ⟨-, slot, e, -, he, -, haddress, hconfidence, -⟩ := entry?_learn_of_received hreceived
  have hentry : (p.train r target).ladder.entry? r.lookup.slots bank = some e := by
    rw [hladder]
    exact he
  have hfound : next = _ :=
    find_of_some isConditional (hsame.symm ▸ hfind) (hsame.symm ▸ hentry)
  rw [hfound]
  exact ⟨rfl, rfl, decide_eq_true hconfidence, haddress⟩

end Ittage

/-- A new entry takes effect at once.  Whenever a commit of a prediction just made counts an
allocation, there is a table that has an entry of another tag than before at the slot of the branch;
and the next prediction of the branch, with the same history, has it for its longest match, with the
longest match of before as the alternate.  It is fresh, and has the direction, or the target, that
the branch took.  In TAGE this holds in every reachable state, and in ITTAGE in every state that
calls lead to. -/
theorem allocation_takes_effect :
    (∀ {base : Bimodal.Config} {c : Ladder.Config} {t : Tage}, Tage.Reachable base c t →
      ∀ (pc : UInt64) (path : PathHistory) (conditional : Bool) (outcome finalOutcome : Direction)
        (skip : Bool),
      let p := t.predict pc path conditional
      let u := t.commit p outcome finalOutcome skip
      let next := u.predict pc path conditional
      (u.ladder.stats.allocations ≠ t.ladder.stats.allocations ↔
          ∃ bank, Reassigned t.ladder u.ladder p.slots bank) ∧
        ∀ bank, Reassigned t.ladder u.ladder p.slots bank →
          next.hit? = some bank ∧ next.alt? = p.hit? ∧ next.pseudoNew = true ∧
            next.longestOutcome = outcome) ∧
    ∀ {c : Ittage.Config} {built p : Ittage}, c.build = .ok built → Reachable built p →
      ∀ (pc : UInt64) (isConditional : Bool) (r : Ittage.Record) (target : UInt64),
      r.lookup = p.find pc isConditional →
      let q := p.train r target
      let next := q.find pc isConditional
      (q.ladder.stats.allocations ≠ p.ladder.stats.allocations ↔
          ∃ bank, Reassigned p.ladder q.ladder r.lookup.slots bank) ∧
        ∀ bank, Reassigned p.ladder q.ladder r.lookup.slots bank →
          next.hit? = some bank ∧ next.alt? = r.lookup.hit? ∧ next.pseudoNew = true ∧
            next.longestTarget? = some target := by
  have hcounted : ∀ (before : Nat) (received? : Option Nat),
      before + received?.isSome.toNat ≠ before ↔ ∃ bank, received? = some bank := by
    intro before received?
    cases received? with
    | none => simp
    | some bank => simp
  constructor
  · intro base c t ht pc path conditional outcome finalOutcome skip p u next
    obtain ⟨hslots, hhit, hdescend⟩ := t.hit?_predict pc path conditional
    have hiff : ∀ bank, Reassigned t.ladder u.ladder p.slots bank ↔
        t.received? p outcome finalOutcome skip = some bank :=
      Tage.reassigned_commit_iff hhit hdescend
    refine ⟨?_, fun bank hbank => ?_⟩
    · rw [Tage.allocations_commit hdescend, hcounted]
      exact (exists_congr hiff).symm
    · exact Tage.predict_commit_of_received ht.regular pc path conditional outcome finalOutcome
        skip ((hiff bank).1 hbank)
  · intro c built p hbuild hp pc isConditional r target hr q next
    obtain ⟨hslots, hhit, -⟩ := p.find_selection pc isConditional
    have hiff : ∀ bank, Reassigned p.ladder q.ladder r.lookup.slots bank ↔
        Ittage.received? r target p.ladder = some bank :=
      Ittage.reassigned_learn_iff (Ittage.installed_of_reachable hbuild hp)
        (by rw [hr, hhit, hslots])
    have hallocations : q.ladder.stats.allocations = p.ladder.stats.allocations +
        (Ittage.received? r target p.ladder).isSome.toNat :=
      Ittage.allocations_learn
    refine ⟨?_, fun bank hbank => ?_⟩
    · rw [hallocations, hcounted]
      exact (exists_congr hiff).symm
    · exact p.find_train_of_received pc isConditional hr ((hiff bank).1 hbank)

/-- A branch that was taken twice and then is not, and a jump that has gone to a second target: in
both predictors the commit allocates past the longest match, and the next search finds the new
entry. -/
theorem second_direction_and_target_take_effect :
    let t := Tage.takenOnce.commit (Tage.takenOnce.predict 4 (.empty 3) true) .taken .notTaken false
    let p := t.predict 4 (.empty 3) true
    let u := t.commit p .notTaken .taken false
    let next := u.predict 4 (.empty 3) true
    let jumps := ((Session.start Ittage.deferring).run deferringRun).predictor
    let r := jumps.lookup 4 false
    let q := jumps.train r 32
    let found := q.find 4 false
    (p.hit? = some 0 ∧ Reassigned t.ladder u.ladder p.slots 1) ∧
      (next.hit? = some 1 ∧ next.alt? = some 0 ∧ next.pseudoNew = true ∧
        next.longestOutcome = .notTaken) ∧
      (r.lookup.hit? = some 1 ∧ Reassigned jumps.ladder q.ladder r.lookup.slots 2) ∧
      found.hit? = some 2 ∧ found.alt? = some 1 ∧ found.pseudoNew = true ∧
        found.longestTarget? = some 32 := by
  intro t p u next jumps r q found
  obtain ⟨hdirections, htargets⟩ := allocation_takes_effect
  have htwice : Tage.Reachable Tage.smallBase Tage.smallLadder t :=
    (Tage.Reachable.blank.commit _ _ _ _).commit _ _ _ _
  have hbuild : Ittage.deferringConfig.build = .ok Ittage.deferring := rfl
  have hjumps : Reachable Ittage.deferring jumps :=
    Session.reachable_run (s := Session.start Ittage.deferring) .origin deferringRun
  have hhit : p.hit? = some 0 := by decide +kernel
  have hlongest : r.lookup.hit? = some 1 := by decide +kernel
  have hwritten : Reassigned t.ladder u.ladder p.slots 1 := by
    unfold Reassigned
    decide +kernel
  have hinstalled : Reassigned jumps.ladder q.ladder r.lookup.slots 2 := by
    unfold Reassigned
    decide +kernel
  obtain ⟨-, hnext⟩ := hdirections htwice 4 (.empty 3) true .notTaken .taken false
  obtain ⟨-, hfound⟩ := htargets hbuild hjumps 4 false r 32 rfl
  have hdirection := hnext 1 hwritten
  have htarget := hfound 2 hinstalled
  rw [hhit] at hdirection
  rw [hlongest] at htarget
  exact ⟨⟨hhit, hwritten⟩, hdirection, ⟨hlongest, hinstalled⟩, htarget⟩

end BranchPrediction
