import BranchPrediction.Proofs.Loops.Commit

/-!
# A trip count is learned exactly

A loop runs in passes of `trip` branches, of which the last goes to the exit and the others stay in
the body.  From the commit that allocates an entry for it, on an exit, the entry follows the loop:
the committed count is where the commits are in a pass, the speculative count where the lookups are,
and the confidence counts the passes that confirmed the first one (`Entry.Follows`).  A lookup that
is confident has therefore read the exact trip count, and predicts the branch for which it is made;
this holds while it waits for its commit, so no commit ever takes the confidence away
(`Course.Tracks`).

Nothing here depends on how far the lookups run ahead of the commits.  A loop that is looked up,
advanced and committed one branch at a time is the course in which each fetch is followed by its
commit.
-/

namespace BranchPrediction

theorem Counter.reset_eq_self {k : Counter} (hvalue : k.value = 0) : k.reset = k := by
  obtain ⟨range, value, hmin, hmax⟩ := k
  subst hvalue
  rfl

namespace LoopPredictor

/-! ## Loops -/

/-- A loop: its branch, how often that is met in a pass, and its direction at the end of a pass. -/
structure Loop where
  pc : UInt64
  trip : Nat
  exit : Direction

/-- The direction of the branch when it is met for the `i`-th time, counted from 0. -/
def Loop.outcome (loop : Loop) (i : Nat) : Direction :=
  if (i + 1) % loop.trip = 0 then loop.exit else loop.exit.opposite

theorem succ_mod_cases {trip : Nat} (htrip : 0 < trip) (i : Nat) :
    ((i + 1) % trip = 0 ∧ i % trip + 1 = trip ∧ (i + 1) / trip = i / trip + 1) ∨
      ((i + 1) % trip = i % trip + 1 ∧ i % trip + 1 < trip ∧ (i + 1) / trip = i / trip) := by
  have hlt := Nat.mod_lt i htrip
  have hsplit : i + 1 = trip * (i / trip) + (i % trip + 1) := by
    have := Nat.div_add_mod i trip
    omega
  rcases Nat.eq_or_lt_of_le (Nat.succ_le_of_lt hlt) with hend | hinside
  · have hfull : i + 1 = trip * (i / trip + 1) := by
      rw [Nat.mul_add, Nat.mul_one]
      omega
    exact .inl ⟨by rw [hfull, Nat.mul_mod_right], hend,
      by rw [hfull, Nat.mul_div_cancel_left _ htrip]⟩
  · exact .inr ⟨by rw [hsplit, Nat.mul_add_mod, Nat.mod_eq_of_lt hinside], hinside,
      by rw [hsplit, Nat.mul_add_div htrip, Nat.div_eq_of_lt hinside, Nat.add_zero]⟩

namespace Loop

variable (loop : Loop)

/-- The branch leaves the body exactly at the end of a pass. -/
theorem outcome_ne_body_iff (i : Nat) :
    loop.outcome i ≠ loop.exit.opposite ↔ (i + 1) % loop.trip = 0 := by
  unfold outcome
  split
  · simpa [*] using loop.exit.opposite_ne.symm
  · simp [*]

end Loop

/-! ## The entry of a loop -/

/-- The entry is where a loop is of which so many branches were committed and so many fetched. -/
structure Entry.Follows (c : Config) (loop : Loop) (committed fetched : Nat) (e : Entry) :
    Prop where
  body_eq : e.body = loop.exit.opposite
  specIteration_eq : e.specIteration = fetched % loop.trip
  iteration_eq : e.iteration = committed % loop.trip
  trip_eq : e.trip = if committed < loop.trip then 0 else loop.trip
  range_eq : e.confidence.range = .unsigned c.confidenceBits
  confidence_eq : e.confidence.value =
    min ((committed / loop.trip - 1 : Nat) : Int) (Counter.Range.unsigned c.confidenceBits).max

theorem Entry.follows_allocated (c : Config) (loop : Loop) (tag : Nat) (htrip : 0 < loop.trip) :
    (Entry.allocated c tag loop.exit).Follows c loop 0 0 where
  body_eq := rfl
  specIteration_eq := (Nat.zero_mod _).symm
  iteration_eq := (Nat.zero_mod _).symm
  trip_eq := (if_pos htrip).symm
  range_eq := rfl
  confidence_eq := by
    have := (Counter.Range.unsigned c.confidenceBits).zero_le_max
    rw [Nat.zero_div]
    exact (Int.min_eq_left this).symm

namespace Entry.Follows

variable {c : Config} {loop : Loop} {committed fetched : Nat} {e : Entry}
variable (h : e.Follows c loop committed fetched)

include h

/-- With the trip count, the entry predicts the branch that is fetched next. -/
theorem prediction_eq (htrip : e.trip ≠ 0) : e.prediction = loop.outcome fetched := by
  have hknown : e.trip = loop.trip := by
    have := h.trip_eq
    split at this
    · exact absurd this htrip
    · exact this
  have hpos : 0 < loop.trip := Nat.pos_of_ne_zero (hknown ▸ htrip)
  rw [Entry.prediction, h.specIteration_eq, hknown, h.body_eq, Direction.opposite_opposite,
    Loop.outcome]
  rcases succ_mod_cases hpos fetched with ⟨hzero, hend, -⟩ | ⟨hnext, hinside, -⟩
  · rw [if_pos hend, if_pos hzero]
  · rw [if_neg (by omega), if_neg (by omega)]

/-- A confident entry is right about the branch that is fetched next. -/
theorem prediction_of_isValid (hvalid : e.isValid = true) :
    e.prediction = loop.outcome fetched := by
  simp only [Entry.isValid, Bool.and_eq_true, decide_eq_true_eq] at hvalid
  exact h.prediction_eq hvalid.1

/-- One pass gives the trip count, and each further one a step of confidence. -/
theorem isValid (htrip : 0 < loop.trip)
    (hpasses : loop.trip * 2 ^ c.confidenceBits ≤ committed) : e.isValid = true := by
  have hpos := Nat.two_pow_pos c.confidenceBits
  have honce : loop.trip ≤ committed := Nat.le_trans (Nat.le_mul_of_pos_right _ hpos) hpasses
  have hcount : 2 ^ c.confidenceBits ≤ committed / loop.trip :=
    (Nat.le_div_iff_mul_le htrip).2 (Nat.mul_comm .. ▸ hpasses)
  have hmax : (Counter.Range.unsigned c.confidenceBits).max =
      ((2 ^ c.confidenceBits : Nat) : Int) - 1 := by
    simp only [Counter.Range.unsigned, Nat.one_shiftLeft]
  simp only [Entry.isValid, h.trip_eq, if_neg (Nat.not_lt.2 honce), h.range_eq, h.confidence_eq,
    hmax, Bool.and_eq_true, decide_eq_true_eq]
  omega

theorem speculate {bits : Nat} (htrip : 0 < loop.trip) (hfits : loop.trip < 2 ^ bits) :
    (e.speculate bits (loop.outcome fetched)).Follows c loop committed (fetched + 1) := by
  refine { h with specIteration_eq := ?_ }
  have hbody : loop.outcome fetched ≠ e.body ↔ (fetched + 1) % loop.trip = 0 := by
    rw [h.body_eq]
    exact loop.outcome_ne_body_iff fetched
  simp only [Entry.speculate, hbody, h.specIteration_eq, Nat.one_shiftLeft]
  rcases succ_mod_cases htrip fetched with ⟨hzero, -, -⟩ | ⟨hnext, hinside, -⟩
  · rw [if_pos hzero, hzero]
  · rw [if_neg (by omega), hnext, Nat.mod_eq_of_lt (by omega)]

/-- Before its exit is looked at, the entry counts one more branch of the pass.  In the first pass
there is no trip count to be forgotten, and later the count does not exceed it. -/
theorem counted_eq {bits : Nat} (htrip : 0 < loop.trip) (hfits : loop.trip < 2 ^ bits) :
    let counted := { e with iteration := (e.iteration + 1) % (1 <<< bits) }
    (if counted.trip < counted.iteration then counted.forgetTrip else counted) =
      { e with iteration := committed % loop.trip + 1 } := by
  have hlt := Nat.mod_lt committed htrip
  have hiteration : (e.iteration + 1) % (1 <<< bits) = committed % loop.trip + 1 := by
    rw [h.iteration_eq, Nat.one_shiftLeft, Nat.mod_eq_of_lt (by omega)]
  simp only [hiteration]
  split
  · rename_i hexceeded
    have hfirst : committed < loop.trip := by
      by_contra hlater
      rw [h.trip_eq, if_neg hlater] at hexceeded
      omega
    have htrip : e.trip = 0 := h.trip_eq.trans (if_pos hfirst)
    have hconfidence : e.confidence.value = 0 := by
      have := (Counter.Range.unsigned c.confidenceBits).zero_le_max
      rw [h.confidence_eq, Nat.div_eq_of_lt hfirst]
      exact Int.min_eq_left this
    simp only [Entry.forgetTrip, Counter.reset_eq_self hconfidence, htrip]
  · rfl

theorem exit_first (hfirst : committed + 1 = loop.trip) (outcome : Direction) :
    ({ e with iteration := loop.trip } : Entry).exit outcome =
      { e with iteration := 0, trip := loop.trip, confidence := e.confidence.reset } := by
  have htrip : e.trip = 0 := h.trip_eq.trans (if_pos (by omega))
  simp only [Entry.exit, htrip, if_true]
  rw [if_neg (by omega)]

theorem exit_later (htrip : 3 ≤ loop.trip) (hlater : loop.trip ≤ committed)
    (outcome : Direction) :
    ({ e with iteration := loop.trip } : Entry).exit outcome =
      { e with iteration := 0, confidence := e.confidence.increment } := by
  have hknown : e.trip = loop.trip := h.trip_eq.trans (if_neg (by omega))
  simp only [Entry.exit, hknown, if_true]
  rw [if_neg (by omega)]

/-- What is learned at the end of a pass. -/
theorem exit (htrip : 3 ≤ loop.trip) (hend : (committed + 1) % loop.trip = 0)
    (hlast : committed % loop.trip + 1 = loop.trip)
    (hdiv : (committed + 1) / loop.trip = committed / loop.trip + 1) (outcome : Direction) :
    (({ e with iteration := loop.trip } : Entry).exit outcome).Follows c loop (committed + 1)
      fetched := by
  have hpos : 0 < loop.trip := by omega
  rcases Nat.lt_or_ge committed loop.trip with hfirst | hlater
  · have hpass : committed + 1 = loop.trip := by
      rw [Nat.mod_eq_of_lt hfirst] at hlast
      exact hlast
    have hmax := (Counter.Range.unsigned c.confidenceBits).zero_le_max
    rw [h.exit_first hpass]
    refine { h with iteration_eq := hend.symm, trip_eq := ?_, confidence_eq := ?_ }
    · rw [if_neg (by omega)]
    · rw [hpass, Nat.div_self hpos]
      exact (Int.min_eq_left hmax).symm
  · have hpasses : 1 ≤ committed / loop.trip := (Nat.one_le_div_iff hpos).2 hlater
    rw [h.exit_later htrip hlater]
    refine { h with
      iteration_eq := hend.symm, trip_eq := ?_, range_eq := ?_, confidence_eq := ?_ }
    · rw [if_neg (by omega)]
      exact h.trip_eq.trans (if_neg (by omega))
    · exact (Counter.range_increment _).trans h.range_eq
    · simp only [Counter.value_increment, h.range_eq, h.confidence_eq, hdiv]
      omega

/-- A commit counts a branch, and learns from the end of a pass. -/
theorem advance {bits : Nat} (htrip : 3 ≤ loop.trip) (hfits : loop.trip < 2 ^ bits) :
    (e.advance bits (loop.outcome committed)).Follows c loop (committed + 1) fetched := by
  have hpos : 0 < loop.trip := by omega
  have hcounted := h.counted_eq hpos hfits
  have hbody : loop.outcome committed ≠ e.body ↔ (committed + 1) % loop.trip = 0 := by
    rw [h.body_eq]
    exact loop.outcome_ne_body_iff committed
  simp only at hcounted
  rw [Entry.advance]
  simp only [hcounted, hbody]
  rcases succ_mod_cases hpos committed with ⟨hend, hlast, hdiv⟩ | ⟨hnext, hinside, hdiv⟩
  · rw [if_pos hend, hlast]
    exact h.exit htrip hend hlast hdiv _
  · have hpass : committed + 1 < loop.trip ↔ committed < loop.trip := by
      rw [← Nat.div_eq_zero_iff_lt hpos, ← Nat.div_eq_zero_iff_lt hpos, hdiv]
    rw [if_neg (by omega)]
    exact { h with
      iteration_eq := hnext.symm
      trip_eq := by simp only [h.trip_eq, hpass]
      confidence_eq := by rw [h.confidence_eq, hdiv] }

/-- A commit of a lookup that was right, if it was confident, trains the entry as the loop goes. -/
theorem train {bits : Nat} (htrip : 3 ≤ loop.trip) (hfits : loop.trip < 2 ^ bits)
    {lookup : Lookup}
    (hright : lookup.isValid = true → lookup.prediction = loop.outcome committed)
    (primary : Direction) :
    (e.train bits lookup (loop.outcome committed) primary).Follows c loop (committed + 1)
      fetched := by
  unfold Entry.train
  rw [if_neg]
  · split
    · have haged : ({ e with age := e.age.increment } : Entry).Follows c loop committed fetched :=
        { h with }
      exact haged.advance htrip hfits
    · exact h.advance htrip hfits
  · simp only [Bool.and_eq_true, decide_eq_true_eq, not_and, not_not]
    exact fun hvalid => (hright hvalid).symm

end Entry.Follows

/-! ## Courses -/

/-- A loop predictor in the course of a loop. -/
structure Course where
  loops : LoopPredictor
  /-- The number of branches of the loop that were committed. -/
  committed : Nat := 0
  /-- The lookups of those that were fetched since, oldest first. -/
  inFlight : List Lookup := []

namespace Course

/-- What happens to a loop predictor in the course of a loop. -/
inductive Event where
  /-- The branch of the loop is looked up, and the speculative count advanced. -/
  | fetch
  /-- The oldest branch in flight is committed. -/
  | commit (primary : Direction) (mispredicted mayAllocate : Bool) (way : Nat)
  /-- A call is made for another branch. -/
  | elsewhere (call : Call)

/-- The number of branches of the loop that were looked up. -/
def fetched (s : Course) : Nat :=
  s.committed + s.inFlight.length

/-- The course after an event; without a branch in flight there is nothing to commit. -/
def step (loop : Loop) (s : Course) : Event → Course
  | .fetch =>
    let lookup := s.loops.lookup loop.pc
    { s with
      loops := s.loops.speculate lookup (loop.outcome s.fetched)
      inFlight := s.inFlight ++ [lookup] }
  | .commit primary mispredicted mayAllocate way =>
    match s.inFlight with
    | [] => s
    | lookup :: younger =>
      { loops := s.loops.commit lookup (loop.outcome s.committed) primary mispredicted mayAllocate
          way
        committed := s.committed + 1
        inFlight := younger }
  | .elsewhere call => { s with loops := call.run s.loops }

def run (loop : Loop) (s : Course) (events : List Event) : Course :=
  events.foldl (step loop) s

/-- The lookup found the entry, and is right about the branch that is met for the `i`-th time if it
is confident. -/
structure Foretells (loop : Loop) (index tag i : Nat) (lookup : Lookup) : Prop where
  hit_eq : lookup.hit? = some index
  tag_eq : lookup.tag = tag
  prediction_eq : lookup.isValid = true → lookup.prediction = loop.outcome i

/-- The entry of the loop follows it, and so do the lookups in flight. -/
structure Tracks (c : Config) (loop : Loop) (index : Nat) (s : Course) : Prop where
  config_eq : s.loops.config = c
  hit_eq : (s.loops.lookup loop.pc).hit? = some index
  entry : ∃ e, s.loops.entries[index]? = some e ∧ e.Follows c loop s.committed s.fetched
  inFlight : ∀ i lookup, s.inFlight[i]? = some lookup →
    Foretells loop index (s.loops.tagOf loop.pc) (s.committed + i) lookup

namespace Tracks

variable {c : Config} {loop : Loop} {index : Nat} {s : Course}
variable (h : Tracks c loop index s)

include h

theorem exists_entry :
    ∃ e, s.loops.entries[index]? = some e ∧ e.Follows c loop s.committed s.fetched ∧
      e.tag? = some (s.loops.tagOf loop.pc) ∧
      (s.loops.lookup loop.pc).isValid = e.isValid ∧
      (s.loops.lookup loop.pc).prediction = e.prediction := by
  obtain ⟨e, hentry, hfollows⟩ := h.entry
  obtain ⟨found, hfound, htag, hlookup⟩ := lookup_of_hit h.hit_eq
  obtain rfl : e = found := Option.some.inj (hentry.symm.trans hfound)
  exact ⟨e, hentry, hfollows, htag, by rw [hlookup], by rw [hlookup]⟩

/-- The lookup of the branch that is fetched next. -/
theorem foretells_lookup :
    Foretells loop index (s.loops.tagOf loop.pc) s.fetched (s.loops.lookup loop.pc) := by
  obtain ⟨e, -, hfollows, -, hisValid, hprediction⟩ := h.exists_entry
  refine ⟨h.hit_eq, s.loops.tag_lookup loop.pc, fun hvalid => ?_⟩
  rw [hprediction]
  exact hfollows.prediction_of_isValid (hisValid ▸ hvalid)

/-- A lookup is confident as soon as the loop has made enough passes. -/
theorem isValid_lookup (htrip : 0 < loop.trip)
    (hpasses : loop.trip * 2 ^ c.confidenceBits ≤ s.committed) :
    (s.loops.lookup loop.pc).isValid = true := by
  obtain ⟨e, -, hfollows, -, hisValid, -⟩ := h.exists_entry
  exact hisValid.trans (hfollows.isValid htrip hpasses)

theorem modifyHeld {lookup : Lookup} (hhit : lookup.hit? = some index)
    (htag : lookup.tag = s.loops.tagOf loop.pc) {f : Entry → Entry}
    (hf : ∀ e, (f e).tag? = e.tag?) {committed : Nat} {inFlight : List Lookup}
    (hfollows : ∀ e : Entry, e.Follows c loop s.committed s.fetched →
      (f e).Follows c loop committed (committed + inFlight.length))
    (hinFlight : ∀ i l, inFlight[i]? = some l →
      Foretells loop index (s.loops.tagOf loop.pc) (committed + i) l) :
    Tracks c loop index ⟨s.loops.modifyHeld lookup f, committed, inFlight⟩ := by
  have hconfig := s.loops.config_modifyHeld lookup f
  obtain ⟨e, hentry, hbefore, hcarried, -⟩ := h.exists_entry
  refine ⟨hconfig.trans h.config_eq, ?_, ⟨f e, ?_, hfollows e hbefore⟩, ?_⟩
  · rw [hit?_lookup_congr hconfig fun i _ => s.loops.tags_modifyHeld lookup hf i]
    exact h.hit_eq
  · exact s.loops.entries_modifyHeld hhit hentry (htag ▸ hcarried) f
  · simp only [tagOf_congr hconfig]
    exact hinFlight

theorem fetch (htrip : 0 < loop.trip) (hfits : loop.trip < 2 ^ c.iterationBits) :
    Tracks c loop index (s.step loop .fetch) := by
  have hlookup := h.foretells_lookup
  refine h.modifyHeld hlookup.hit_eq hlookup.tag_eq (fun e => e.tag?_speculate _ _)
    (fun e hfollows => ?_) fun i l hl => ?_
  · rw [List.length_append, List.length_singleton, ← Nat.add_assoc, h.config_eq]
    exact hfollows.speculate htrip hfits
  · rcases Nat.lt_or_ge i s.inFlight.length with hlt | hge
    · rw [List.getElem?_append_left hlt] at hl
      exact h.inFlight i l hl
    · rw [List.getElem?_append_right hge, List.getElem?_singleton] at hl
      split at hl
      · obtain rfl : i = s.inFlight.length := by omega
        cases hl
        exact hlookup
      · cases hl

theorem commit (htrip : 3 ≤ loop.trip) (hfits : loop.trip < 2 ^ c.iterationBits)
    (primary : Direction) (mispredicted mayAllocate : Bool) (way : Nat) :
    Tracks c loop index (s.step loop (.commit primary mispredicted mayAllocate way)) := by
  rw [step]
  split
  · exact h
  · rename_i lookup younger hqueue
    have holdest := h.inFlight 0 lookup (by rw [hqueue]; rfl)
    rw [commit_of_hit _ holdest.hit_eq]
    refine h.modifyHeld holdest.hit_eq holdest.tag_eq (fun e => e.tag?_train _ _ _ _)
      (fun e hfollows => ?_) fun i l hl => ?_
    · have hfetched : s.committed + 1 + younger.length = s.fetched := by
        rw [Course.fetched, hqueue, List.length_cons]
        omega
      rw [hfetched, h.config_eq]
      exact hfollows.train htrip hfits holdest.prediction_eq primary
    · have hyoung := h.inFlight (i + 1) l (by rw [hqueue]; exact hl)
      rw [Nat.add_assoc, Nat.add_comm 1 i]
      exact hyoung

theorem elsewhere {call : Call} (helsewhere : call.Elsewhere c loop.pc) :
    Tracks c loop index (s.step loop (.elsewhere call)) := by
  have hconfig := call.config_run s.loops
  have hsame : ∀ i ∈ s.loops.waysOf (s.loops.setOf loop.pc),
      (call.run s.loops).entries[i]? = s.loops.entries[i]? :=
    fun i hi => Call.entries_run_of_elsewhere (h.config_eq ▸ helsewhere) hi
  refine ⟨hconfig.trans h.config_eq, ?_, ?_, ?_⟩
  · rw [← h.hit_eq]
    exact hit?_lookup_congr hconfig fun i hi => congrArg _ (hsame i hi)
  · rw [step, hsame index (mem_waysOf_of_hit h.hit_eq)]
    exact h.entry
  · simp only [step, tagOf_congr hconfig]
    exact h.inFlight

theorem step (htrip : 3 ≤ loop.trip) (hfits : loop.trip < 2 ^ c.iterationBits) {event : Event}
    (helsewhere : ∀ call, event = .elsewhere call → call.Elsewhere c loop.pc) :
    Tracks c loop index (s.step loop event) := by
  cases event with
  | fetch => exact h.fetch (by omega) hfits
  | commit primary mispredicted mayAllocate way =>
      exact h.commit htrip hfits primary mispredicted mayAllocate way
  | elsewhere call => exact h.elsewhere (helsewhere call rfl)

theorem run (htrip : 3 ≤ loop.trip) (hfits : loop.trip < 2 ^ c.iterationBits)
    {events : List Event}
    (helsewhere : ∀ call, .elsewhere call ∈ events → call.Elsewhere c loop.pc) :
    Tracks c loop index (s.run loop events) := by
  induction events generalizing s with
  | nil => exact h
  | cons event rest ih =>
      refine ih (h.step htrip hfits fun call hcall => ?_) fun call hcall => ?_
      · exact helsewhere call (hcall ▸ List.mem_cons_self)
      · exact helsewhere call (List.mem_cons_of_mem _ hcall)

end Tracks

/-- After a commit that gave the branch an entry, which its lookup had just missed, the entry is a
new one, at the beginning of a pass. -/
theorem tracks_of_allocated {p : LoopPredictor} {loop : Loop} {index : Nat}
    (htrip : 0 < loop.trip) (hmiss : (p.lookup loop.pc).hit? = none)
    {primary : Direction} {mispredicted mayAllocate : Bool} {way : Nat} {start : LoopPredictor}
    (hstart : p.commit (p.lookup loop.pc) loop.exit primary mispredicted mayAllocate way = start)
    (hallocated : (start.lookup loop.pc).hit? = some index) :
    Tracks p.config loop index ⟨start, 0, []⟩ := by
  have hconfig : start.config = p.config :=
    hstart ▸ congrArg Prod.fst (p.frame_commit _ _ _ _ _ _)
  obtain ⟨e, hentry, htag, -⟩ := lookup_of_hit hallocated
  have hindex := mem_waysOf_of_hit hallocated
  rw [setOf_congr hconfig, waysOf_congr hconfig] at hindex
  rw [tagOf_congr hconfig] at htag
  -- no way of the set carried the tag before the commit
  have hchanged : (start.entries[index]?).map (·.tag?) ≠ (p.entries[index]?).map (·.tag?) := by
    rw [hentry, Option.map_some, htag]
    intro heq
    obtain ⟨old, hold, hsame⟩ := Option.map_eq_some_iff.1 heq.symm
    have hnone := List.find?_eq_none.1 ((p.hit?_lookup loop.pc).symm.trans hmiss) index hindex
    exact hnone ((p.holds_eq_true_iff _ _).2 ⟨old, hold, hsame⟩)
  have hnew : e = Entry.allocated p.config (p.tagOf loop.pc) loop.exit := by
    subst hstart
    obtain ⟨-, rfl, rfl, hfound⟩ := recipient_of_tag_ne hchanged
    rw [entries_commit_of_find? hmiss hfound, Option.some_inj, tag_lookup] at hentry
    exact hentry.symm
  refine ⟨hconfig, hallocated, ⟨e, hentry, ?_⟩, fun i l hl => ?_⟩
  · rw [hnew]
    exact Entry.follows_allocated p.config loop _ htrip
  · cases hl

end Course

end LoopPredictor

open LoopPredictor

/-- Every trip count from 3 to the largest that the iteration counts can hold is learned exactly.
From a commit that allocated an entry for the loop on its exit, however its branches are fetched
ahead of their commits and whatever is done for branches of other sets: once `2 ^ confidenceBits`
passes have been committed, each lookup is confident and predicts the branch for which it is
made. -/
theorem trip_count_learned (p : LoopPredictor) (loop : Loop) (htrip : 3 ≤ loop.trip)
    (hfits : loop.trip ≤ 2 ^ p.config.iterationBits - 1)
    (hmiss : (p.lookup loop.pc).hit? = none)
    (primary : Direction) (mispredicted mayAllocate : Bool) (way : Nat) (start : LoopPredictor)
    (hstart : p.commit (p.lookup loop.pc) loop.exit primary mispredicted mayAllocate way = start)
    (hallocated : (start.lookup loop.pc).hit?.isSome = true)
    (events : List Course.Event)
    (helsewhere : ∀ call, .elsewhere call ∈ events → call.Elsewhere p.config loop.pc)
    (s : Course) (hrun : Course.run loop { loops := start } events = s)
    (hpasses : loop.trip * 2 ^ p.config.confidenceBits ≤ s.committed) :
    (s.loops.lookup loop.pc).isValid = true ∧
      (s.loops.lookup loop.pc).prediction = loop.outcome s.fetched := by
  obtain ⟨index, hindex⟩ := Option.isSome_iff_exists.1 hallocated
  have hpos := Nat.two_pow_pos p.config.iterationBits
  have hbegin := Course.tracks_of_allocated (by omega) hmiss hstart hindex
  have htracks := hrun ▸ hbegin.run htrip (by omega) helsewhere
  have hvalid := htracks.isValid_lookup (by omega) hpasses
  exact ⟨hvalid, htracks.foretells_lookup.prediction_eq hvalid⟩

namespace LoopPredictor

/-- A loop predictor of two sets whose iteration counts end at 3, and which trusts a trip count as
soon as it was met twice. -/
def twoSets : LoopPredictor :=
  blank
    { logSets := 1, ways := 2, tagBits := 4, iterationBits := 2, confidenceBits := 1, ageBits := 1
      trustBits := 2 }

/-- A loop that leaves its body with every third branch. -/
def everyThird : Loop :=
  ⟨0x8000, 3, .notTaken⟩

/-- Two passes one branch at a time, then two branches ahead of their commits, with a branch of the
other set in between. -/
def twoPassesAndTwoAhead : List Course.Event :=
  (List.replicate 6 [.fetch, .commit .taken true true 1]).flatten ++
    [.fetch, .elsewhere (.commit (twoSets.lookup 0x8004) .taken .notTaken true true 1), .fetch]

end LoopPredictor

theorem every_third_exit_learned :
    let start := twoSets.commit (twoSets.lookup 0x8000) .notTaken .taken true true 1
    let s := Course.run everyThird { loops := start } twoPassesAndTwoAhead
    s.committed = 6 ∧ s.inFlight.length = 2 ∧
      (s.loops.lookup 0x8000).isValid = true ∧ (s.loops.lookup 0x8000).prediction = .notTaken := by
  intro start s
  have helsewhere : ∀ call, .elsewhere call ∈ twoPassesAndTwoAhead →
      call.Elsewhere twoSets.config 0x8000 := by
    intro call hcall
    obtain rfl : call = .commit (twoSets.lookup 0x8004) .taken .notTaken true true 1 := by
      simpa [twoPassesAndTwoAhead] using hcall
    refine ⟨by simp, fun lookup hlookup => ⟨twoSets, 0x8004, rfl, by decide +kernel, ?_⟩⟩
    exact (Option.some.inj hlookup).symm
  have hpasses : everyThird.trip * 2 ^ twoSets.config.confidenceBits ≤ s.committed := by
    decide +kernel
  have hlearned := trip_count_learned twoSets everyThird (by decide) (by decide)
    (by decide +kernel) .taken true true 1 start rfl (by decide +kernel) twoPassesAndTwoAhead
    helsewhere s rfl hpasses
  have houtcome : everyThird.outcome s.fetched = .notTaken := by decide +kernel
  exact ⟨by decide +kernel, by decide +kernel, hlearned.1, hlearned.2.trans houtcome⟩

end BranchPrediction
