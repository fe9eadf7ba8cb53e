import BranchPrediction.Proofs.Loops.TripCount
import BranchPrediction.Proofs.Safety.Lookups

/-!
# Loop counts stay in their bounds, however old the lookups

A lookup may be used long after it was made, more than once, and after others have trained or
replaced the entry that it found; what it says of the entry need not be true any more.  `Usage` is
a loop predictor together with all lookups that it has answered, and a call may be given any of
them.

The entries are bounded all the same (`Entry.Bounded`): a trip count that has any confidence is at
least 3, the committed count does not exceed a trip count that is known, and no count outgrows its
width.  A commit breaks the first of these and mends it again, since it raises the confidence before
it looks whether the loop is a very short one; so the bounds are followed through the parts of a
commit, and hold after each whole part.
-/

namespace BranchPrediction

theorem Counter.Range.max_unsigned_pos {bits : Nat} (hbits : 0 < bits) :
    0 < (Counter.Range.unsigned bits).max := by
  have := Nat.one_lt_two_pow hbits.ne'
  simp only [Counter.Range.unsigned, Nat.one_shiftLeft]
  omega

namespace LoopPredictor

/-! ## What holds of all entries -/

section EveryEntry

variable {I : Entry → Prop} {p : LoopPredictor} (h : ∀ e ∈ p.entries, I e)

include h

theorem forall_entries_modifyEntry (index : Nat) {f : Entry → Entry} (hf : ∀ e, I e → I (f e)) :
    ∀ e ∈ (p.modifyEntry index f).entries, I e :=
  forall_mem_modify h fun e he => hf e (h e (Array.mem_of_getElem? he))

theorem forall_entries_modifyHeld (lookup : Lookup) {f : Entry → Entry}
    (hf : ∀ e, I e → I (f e)) : ∀ e ∈ (p.modifyHeld lookup f).entries, I e := by
  unfold modifyHeld
  split
  · split
    · exact forall_entries_modifyEntry h _ hf
    · exact h
  · exact h

/-- A commit keeps what holds of a new entry, is kept by training, and does not depend on the age of
an entry. -/
theorem forall_entries_commit {lookup : Lookup} {outcome primary : Direction}
    (hnew : I (.allocated p.config lookup.tag outcome))
    (htrain : ∀ e, I e → I (e.train p.config.iterationBits lookup outcome primary))
    (haged : ∀ e age, I e → I { e with age }) (mispredicted mayAllocate : Bool) (way : Nat) :
    ∀ e ∈ (p.commit lookup outcome primary mispredicted mayAllocate way).entries, I e := by
  intro e' he'
  obtain ⟨index, hentry'⟩ := Array.mem_iff_getElem?.1 he'
  cases hgives : p.givesAway lookup mispredicted mayAllocate way index with
  | true =>
      obtain ⟨hmiss, rfl, rfl, hfound⟩ := givesAway_iff.1 hgives
      rw [entries_commit_of_find? hmiss hfound, Option.some_inj] at hentry'
      exact hentry' ▸ hnew
  | false =>
      rw [entries_commit, Option.map_eq_some_iff] at hentry'
      obtain ⟨e, hentry, rfl⟩ := hentry'
      have he := h e (Array.mem_of_getElem? hentry)
      have hchange := commitEntry_of_not_givesAway outcome primary hgives e
      split at hchange
      · exact hchange ▸ htrain e he
      · obtain ⟨age, hchange⟩ := hchange
        exact hchange ▸ haged e age he

end EveryEntry

/-! ## One entry -/

/-- The counts of an entry are in their bounds. -/
structure Entry.Bounded (bits : Nat) (e : Entry) : Prop where
  /-- Loops of one or two iterations are never trusted. -/
  le_trip : 0 < e.confidence.value → 3 ≤ e.trip
  iteration_le : e.trip = 0 ∨ e.iteration ≤ e.trip
  trip_lt : e.trip < 2 ^ bits
  iteration_lt : e.iteration < 2 ^ bits
  specIteration_lt : e.specIteration < 2 ^ bits

theorem not_pos_zero (range : Counter.Range) : ¬ 0 < (Counter.zero range).value :=
  Int.lt_irrefl 0

namespace Entry.Bounded

variable {bits : Nat} {e : Entry}

theorem blank (bits : Nat) (c : Config) : (Entry.blank c).Bounded bits where
  le_trip hpos := absurd hpos (not_pos_zero _)
  iteration_le := .inl rfl
  trip_lt := Nat.two_pow_pos bits
  iteration_lt := Nat.two_pow_pos bits
  specIteration_lt := Nat.two_pow_pos bits

theorem allocated (bits : Nat) (c : Config) (tag : Nat) (outcome : Direction) :
    (Entry.allocated c tag outcome).Bounded bits :=
  { blank bits c with }

section

variable (h : e.Bounded bits)

include h

theorem aged (age : Counter) : ({ e with age } : Entry).Bounded bits :=
  { h with }

theorem restored {saved : Nat} (hsaved : saved < 2 ^ bits) :
    ({ e with specIteration := saved } : Entry).Bounded bits :=
  { h with specIteration_lt := hsaved }

theorem speculate (outcome : Direction) : (e.speculate bits outcome).Bounded bits := by
  refine { h with specIteration_lt := ?_ }
  have hpos := Nat.two_pow_pos bits
  simp only [Entry.speculate, Nat.one_shiftLeft]
  split
  · exact hpos
  · exact Nat.mod_lt _ hpos

theorem restarted : ({ e with iteration := 0 } : Entry).Bounded bits :=
  { h with
    iteration_le := .inr (Nat.zero_le _)
    iteration_lt := Nat.two_pow_pos bits }

theorem forgetTrip : e.forgetTrip.Bounded bits :=
  { h with
    le_trip := fun hpos => absurd hpos (not_pos_zero _)
    iteration_le := .inl rfl
    trip_lt := Nat.two_pow_pos bits }

theorem release : e.release.Bounded bits :=
  { h.forgetTrip.restarted with }

theorem turned (outcome : Direction) : ({ e with body := outcome } : Entry).Bounded bits :=
  { h with }

/-- The exit of a loop leaves a confident entry only with a trip count that is not very short. -/
theorem exit (outcome : Direction) : (e.exit outcome).Bounded bits := by
  unfold Entry.exit
  refine restarted ?_
  simp only
  split
  · -- the confidence is raised, whatever the trip count, and a very short loop is then given up
    have hraised : 3 ≤ e.trip → ({ e with confidence := e.confidence.increment } :
        Entry).Bounded bits := fun htrip => { h with le_trip := fun _ => htrip }
    split
    · exact { ((h.turned outcome).release) with }
    · next hlong => exact hraised (Nat.not_lt.1 hlong)
  · split
    · exact { h with
        le_trip := fun hpos => absurd hpos (not_pos_zero _)
        iteration_le := .inr (Nat.le_refl _)
        trip_lt := h.iteration_lt }
    · exact h.forgetTrip

/-- A trip count that the committed count exceeds is forgotten. -/
theorem counted :
    let counted := { e with iteration := (e.iteration + 1) % (1 <<< bits) }
    (if counted.trip < counted.iteration then counted.forgetTrip else counted).Bounded bits := by
  have hlt : (e.iteration + 1) % (1 <<< bits) < 2 ^ bits := by
    rw [Nat.one_shiftLeft]
    exact Nat.mod_lt _ (Nat.two_pow_pos bits)
  intro counted
  split
  · exact { h with
      le_trip := fun hpos => absurd hpos (not_pos_zero _)
      iteration_le := .inl rfl
      trip_lt := Nat.two_pow_pos bits
      iteration_lt := hlt }
  · next hnot =>
      exact { h with
        iteration_le := .inr (Nat.not_lt.1 hnot)
        iteration_lt := hlt }

theorem advance (outcome : Direction) : (e.advance bits outcome).Bounded bits := by
  have hcounted := h.counted
  unfold Entry.advance
  simp only at hcounted ⊢
  generalize (if e.trip < (e.iteration + 1) % 1 <<< bits then _ else _ : Entry) = counted
    at hcounted ⊢
  split
  · exact hcounted.exit outcome
  · exact hcounted

theorem train (lookup : Lookup) (outcome primary : Direction) :
    (e.train bits lookup outcome primary).Bounded bits := by
  unfold Entry.train
  split
  · exact h.release
  · refine advance ?_ outcome
    split
    · exact h.aged _
    · exact h

end

end Entry.Bounded

/-! ## Calls -/

/-- The tables are as the configuration says, and the entries in their bounds. -/
structure InBounds (c : Config) (p : LoopPredictor) : Prop where
  regular : p.Regular c
  entry : ∀ e ∈ p.entries, e.Bounded c.iterationBits

theorem Call.regular_run {c : Config} {p : LoopPredictor} (h : p.Regular c) (call : Call) :
    (call.run p).Regular c := by
  cases call with
  | speculate lookup outcome => exact h.speculate lookup outcome
  | restore lookup => exact h.restore lookup
  | commit lookup outcome primary mispredicted mayAllocate way =>
      exact h.commit lookup outcome primary mispredicted mayAllocate way
  | trainTrust pc isCorrect => exact h.trainTrust pc isCorrect
  | reset => exact h.reset

namespace InBounds

variable {c : Config} {p : LoopPredictor}

theorem blank (c : Config) : (LoopPredictor.blank c).InBounds c where
  regular := .blank c
  entry e he := by
    rw [(Array.mem_replicate.1 he).2]
    exact .blank _ c

variable (h : p.InBounds c)

include h

theorem savedIteration_lt (pc : UInt64) :
    (p.lookup pc).savedIteration < 2 ^ c.iterationBits := by
  cases hhit : (p.lookup pc).hit? with
  | none =>
      rw [lookup_of_miss hhit]
      exact Nat.two_pow_pos _
  | some index =>
      obtain ⟨e, hentry, -, hlookup⟩ := lookup_of_hit hhit
      rw [hlookup]
      exact (h.entry e (Array.mem_of_getElem? hentry)).specIteration_lt

/-- A call keeps the bounds, if the count that it may restore is in them. -/
theorem run {call : Call} (hsaved : ∀ lookup, call.lookup? = some lookup →
    lookup.savedIteration < 2 ^ c.iterationBits) : (call.run p).InBounds c := by
  refine ⟨call.regular_run h.regular, ?_⟩
  have hconfig := h.regular.config_eq
  cases call with
  | speculate lookup outcome =>
      refine forall_entries_modifyHeld h.entry lookup fun e he => ?_
      rw [hconfig]
      exact he.speculate outcome
  | restore lookup =>
      exact forall_entries_modifyHeld h.entry lookup fun e he => he.restored (hsaved lookup rfl)
  | commit lookup outcome primary mispredicted mayAllocate way =>
      refine forall_entries_commit h.entry (.allocated _ _ _ _) (fun e he => ?_)
        (fun e age he => he.aged age) mispredicted mayAllocate way
      rw [hconfig]
      exact he.train lookup outcome primary
  | trainTrust pc isCorrect => exact h.entry
  | reset =>
      rw [Call.run, reset, hconfig]
      exact (blank c).entry

/-- A lookup that is confident has read a trip count of at least 3. -/
theorem le_trip_of_isValid (hconfidence : 0 < c.confidenceBits) {pc : UInt64}
    (hvalid : (p.lookup pc).isValid = true) :
    ∃ index e, (p.lookup pc).hit? = some index ∧ p.entries[index]? = some e ∧ 3 ≤ e.trip := by
  cases hhit : (p.lookup pc).hit? with
  | none =>
      rw [lookup_of_miss hhit] at hvalid
      cases hvalid
  | some index =>
      obtain ⟨e, hentry, -, hlookup⟩ := lookup_of_hit hhit
      have hmem := Array.mem_of_getElem? hentry
      have hconfident : e.confidence.value = e.confidence.range.max := by
        rw [hlookup] at hvalid
        simp only [Entry.isValid, Bool.and_eq_true, decide_eq_true_eq] at hvalid
        exact hvalid.2
      refine ⟨index, e, rfl, hentry, (h.entry e hmem).le_trip ?_⟩
      rw [hconfident, (h.regular.confidence e hmem).range_eq]
      exact Counter.Range.max_unsigned_pos hconfidence

end InBounds

/-! ## Runs -/

/-- A loop predictor in use, with the lookups that it has answered. -/
structure Usage where
  loops : LoopPredictor
  answered : List Lookup := []

namespace Usage

inductive Event where
  | lookup (pc : UInt64)
  | call (call : Call)

/-- The usage after an event.  A call may be given any lookup that was answered before; with another
one it is not made. -/
def step (s : Usage) : Event → Usage
  | .lookup pc => { s with answered := s.answered ++ [s.loops.lookup pc] }
  | .call call =>
    if call.lookup?.all (· ∈ s.answered) then { s with loops := call.run s.loops } else s

/-- The usage after some events. -/
def run (s : Usage) (events : List Event) : Usage :=
  events.foldl step s

/-- The predictor is in its bounds, and was so whenever it answered a lookup. -/
structure Sound (c : Config) (s : Usage) : Prop where
  loops : s.loops.InBounds c
  answered : ∀ lookup ∈ s.answered, ∃ (p : LoopPredictor) (pc : UInt64),
    p.InBounds c ∧ lookup = p.lookup pc

namespace Sound

variable {c : Config} {s : Usage}

theorem blank (c : Config) : Sound c { loops := LoopPredictor.blank c } where
  loops := .blank c
  answered _ hlookup := by cases hlookup

theorem step (h : s.Sound c) (event : Event) : (s.step event).Sound c := by
  cases event with
  | lookup pc =>
      refine ⟨h.loops, fun lookup hlookup => ?_⟩
      rcases List.mem_append.1 hlookup with hold | hnew
      · exact h.answered lookup hold
      · exact ⟨s.loops, pc, h.loops, List.mem_singleton.1 hnew⟩
  | call call =>
      rw [Usage.step]
      split
      · next hanswered =>
          refine ⟨h.loops.run fun lookup hlookup => ?_, h.answered⟩
          have hmem : lookup ∈ s.answered := by simpa [hlookup] using hanswered
          obtain ⟨p, pc, hp, rfl⟩ := h.answered lookup hmem
          exact hp.savedIteration_lt pc
      · exact h

theorem run (h : s.Sound c) (events : List Event) : (s.run events).Sound c := by
  induction events generalizing s with
  | nil => exact h
  | cons event rest ih => exact ih (h.step event)

end Sound

end Usage

end LoopPredictor

open LoopPredictor

/-- The counts of a loop predictor are bounded.  Whatever is done with it, each call being given any
lookup answered before: every entry is in its bounds, and a lookup that is confident has found a
trip count of at least 3. -/
theorem loop_counts_bounded {c : LoopPredictor.Config} (hvalid : c.validate = .ok ())
    (events : List Usage.Event) :
    let p := (Usage.run { loops := blank c } events).loops
    (∀ e ∈ p.entries, (0 < e.confidence.value → 3 ≤ e.trip) ∧ (e.trip = 0 ∨ e.iteration ≤ e.trip) ∧
      e.trip ≤ 2 ^ c.iterationBits - 1 ∧ e.iteration ≤ 2 ^ c.iterationBits - 1 ∧
        e.specIteration ≤ 2 ^ c.iterationBits - 1) ∧
      ∀ pc, (p.lookup pc).isValid = true →
        ∃ index e, (p.lookup pc).hit? = some index ∧ p.entries[index]? = some e ∧ 3 ≤ e.trip := by
  intro p
  have hp : p.InBounds c := ((Usage.Sound.blank c).run events).loops
  have hpos := Nat.two_pow_pos c.iterationBits
  refine ⟨fun e he => ?_, fun pc hconfident => ?_⟩
  · obtain ⟨hle, hiteration, htrip, hcommitted, hspeculative⟩ := hp.entry e he
    exact ⟨hle, hiteration, by omega, by omega, by omega⟩
  · obtain ⟨hconfidence, -, -⟩ := c.counters_of_validate hvalid
    simp only [Counter.Range.supports, Bool.and_eq_true, decide_eq_true_eq] at hconfidence
    exact hp.le_trip_of_isValid hconfidence.1 hconfident

namespace LoopPredictor

/-- The lookup that finds the entry of the second way when it is new. -/
def staleLookup : Lookup :=
  { hit? := some 1, prediction := .taken }

/-- An entry is allocated, and two passes of three branches are committed with one and the same
lookup; in between, the speculative count is restored from it. -/
def staleUse : List Usage.Event :=
  let commits := [.taken, .taken, .notTaken].map fun outcome =>
    Usage.Event.call (.commit staleLookup outcome .taken false true 0)
  [.lookup 0x8000, .call (.commit {} .notTaken .taken true true 1), .lookup 0x8000] ++ commits ++
    [.call (.speculate staleLookup .taken), .call (.restore staleLookup)] ++ commits

end LoopPredictor

theorem staleUse_counts_bounded :
    let p := (Usage.run { loops := blank twoSets.config } staleUse).loops
    twoSets.config.validate = .ok () ∧ (∀ e ∈ p.entries, e.trip = 0 ∨ e.iteration ≤ e.trip) ∧
      (p.lookup 0x8000).isValid = true ∧
        ∃ index e, (p.lookup 0x8000).hit? = some index ∧ p.entries[index]? = some e ∧
          3 ≤ e.trip := by
  intro p
  have hvalid : twoSets.config.validate = .ok () := rfl
  obtain ⟨hentries, hlookups⟩ := loop_counts_bounded hvalid staleUse
  have hconfident : (p.lookup 0x8000).isValid = true := by decide +kernel
  exact ⟨hvalid, fun e he => (hentries e he).2.1, hconfident, hlookups 0x8000 hconfident⟩

end BranchPrediction
