import BranchPrediction.Proofs.Loops.Scan

/-!
# The two iteration counts of a loop at rest

An entry counts the iterations of its loop twice.  A lookup advances the speculative count by the
branch that it is made for, and a commit advances the committed count by the same branch.  So the
speculative count is the committed one, advanced by the branches in flight that found the entry
(`Stream.InStep`), and the two agree when none is in flight.

Three kinds of commit lead the counts apart (`Stream.strays`).  One gives up a confident entry
because its loop stayed in the body where the exit was expected, and starts the committed count
anew, but not the speculative one.  One gives up a very short loop and turns the direction of its
body, while younger branches have been counted by the old direction.  And one gives the entry back
to a loop that had lost it, of which a branch is still in flight.  The counts come together again
with the next exit that is looked up, since an exit starts both anew, and when the entry is given
away (`Stream.renews`).
-/

namespace BranchPrediction

namespace LoopPredictor

/-! ## Counting -/

/-- A count after one more branch, for a loop with this direction of its body. -/
def countOn (bits : Nat) (body : Direction) (count : Nat) (outcome : Direction) : Nat :=
  if outcome ≠ body then 0 else (count + 1) % (1 <<< bits)

theorem countOn_of_ne {bits : Nat} {body outcome : Direction} (hne : outcome ≠ body)
    (count : Nat) : countOn bits body count outcome = 0 :=
  if_pos hne

/-- Where a loop leaves its body, it does not matter what was counted before. -/
theorem foldl_countOn_of_exit {bits : Nat} {body : Direction} {outcomes : List Direction}
    (hexit : ∃ outcome ∈ outcomes, outcome ≠ body) (x y : Nat) :
    outcomes.foldl (countOn bits body) x = outcomes.foldl (countOn bits body) y := by
  induction outcomes generalizing x y with
  | nil =>
      obtain ⟨outcome, hmem, -⟩ := hexit
      cases hmem
  | cons first rest ih =>
      obtain ⟨outcome, hmem, hne⟩ := hexit
      rw [List.foldl_cons, List.foldl_cons]
      rcases List.mem_cons.1 hmem with rfl | hrest
      · rw [countOn_of_ne hne, countOn_of_ne hne]
      · exact ih ⟨outcome, hrest, hne⟩ _ _

namespace Entry

variable (e : Entry) (bits : Nat) (lookup : Lookup) (outcome primary : Direction)

theorem specIteration_speculate :
    (e.speculate bits outcome).specIteration = countOn bits e.body e.specIteration outcome :=
  rfl

theorem iteration_advance :
    (e.advance bits outcome).iteration = countOn bits e.body e.iteration outcome := by
  unfold advance countOn
  by_cases hover : e.trip < (e.iteration + 1) % (1 <<< bits)
  · simp only [hover, if_true, forgetTrip]
    split
    · rfl
    · rfl
  · simp only [hover, if_false]
    split
    · rfl
    · rfl

/-- A commit advances the committed count by its branch, or gives up the entry. -/
theorem iteration_train :
    (e.train bits lookup outcome primary).iteration =
      if lookup.isValid && outcome ≠ lookup.prediction then 0
      else countOn bits e.body e.iteration outcome := by
  unfold train
  split
  · rfl
  · simp only [iteration_advance]
    split
    · rfl
    · rfl

/-- The commit of a branch leads the counts of its entry apart: it gives up a confident entry of
which the loop stays in its body, also in the branches that were counted after, or it turns the
direction of the body, by which such branches were counted. -/
def strays (later : List Direction) : Bool :=
  (lookup.isValid && outcome ≠ lookup.prediction && outcome = e.body && later.all (· = e.body)) ||
    ((e.train bits lookup outcome primary).body ≠ e.body && !later.isEmpty)

variable {e bits lookup outcome primary}

/-- A commit that does not lead the counts apart moves its branch from one count to the other. -/
theorem specIteration_train_of_not_strays {later : List Direction}
    (hstays : ¬ e.strays bits lookup outcome primary later = true)
    (hspec : e.specIteration =
      (outcome :: later).foldl (countOn bits e.body) e.iteration) :
    let trained := e.train bits lookup outcome primary
    trained.specIteration = later.foldl (countOn bits trained.body) trained.iteration := by
  intro trained
  simp only [strays, Bool.or_eq_true, not_or] at hstays
  obtain ⟨hstayed, hturned⟩ := hstays
  rw [List.foldl_cons] at hspec
  have hcounted : trained.specIteration = later.foldl (countOn bits e.body) trained.iteration := by
    rw [specIteration_train, iteration_train, hspec]
    split
    · next hwrong =>
        by_cases hbody : outcome = e.body
        · have hexit : ∃ outcome ∈ later, outcome ≠ e.body := by
            rw [hwrong] at hstayed
            simpa [hbody] using hstayed
          exact foldl_countOn_of_exit hexit _ _
        · rw [countOn_of_ne hbody]
    · rfl
  have hempty : trained.body ≠ e.body → later = [] := by simpa using hturned
  by_cases hbody : trained.body = e.body
  · rw [hbody, hcounted]
  · rw [hcounted, hempty hbody]
    rfl

end Entry

/-! ## Branches in flight -/

/-- A loop predictor that learns of each branch twice: when it is looked up, and when it is
committed. -/
structure Stream where
  loops : LoopPredictor
  /-- The branches in flight with their outcomes, oldest first. -/
  inFlight : List (Lookup × Direction) := []

/-- The outcomes of the branches in flight that found the entry with its tag. -/
def awaited (index tag : Nat) (inFlight : List (Lookup × Direction)) : List Direction :=
  (inFlight.filter fun x => x.1.hit? = some index && x.1.tag = tag).map (·.2)

section Awaited

variable {index tag : Nat} {lookup : Lookup}

theorem awaited_append (older younger : List (Lookup × Direction)) :
    awaited index tag (older ++ younger) =
      awaited index tag older ++ awaited index tag younger := by
  simp [awaited]

theorem awaited_cons_of_found (hhit : lookup.hit? = some index) (htag : lookup.tag = tag)
    (outcome : Direction) (younger : List (Lookup × Direction)) :
    awaited index tag ((lookup, outcome) :: younger) = outcome :: awaited index tag younger := by
  simp [awaited, hhit, htag]

theorem awaited_cons_of_not_found (hother : ¬ (lookup.hit? = some index ∧ lookup.tag = tag))
    (outcome : Direction) (younger : List (Lookup × Direction)) :
    awaited index tag ((lookup, outcome) :: younger) = awaited index tag younger := by
  simp [awaited, hother]

end Awaited

namespace Stream

inductive Event where
  /-- A branch is looked up, and the speculative count is advanced by its outcome at once. -/
  | fetch (pc : UInt64) (outcome : Direction)
  /-- The oldest branch in flight is committed with its lookup. -/
  | commit (primary : Direction) (mispredicted mayAllocate : Bool) (way : Nat)

/-- The stream after an event; without a branch in flight there is nothing to commit. -/
def step (s : Stream) : Event → Stream
  | .fetch pc outcome =>
    let lookup := s.loops.lookup pc
    { loops := s.loops.speculate lookup outcome, inFlight := s.inFlight ++ [(lookup, outcome)] }
  | .commit primary mispredicted mayAllocate way =>
    match s.inFlight with
    | [] => s
    | (lookup, outcome) :: younger =>
      { loops := s.loops.commit lookup outcome primary mispredicted mayAllocate way
        inFlight := younger }

def run (s : Stream) (events : List Event) : Stream :=
  events.foldl step s

/-- The speculative count of an entry that carries a tag is the committed one, advanced by the
branches in flight that found it. -/
def InStep (index : Nat) (s : Stream) : Prop :=
  ∀ e tag, s.loops.entries[index]? = some e → e.tag? = some tag →
    e.specIteration =
      (awaited index tag s.inFlight).foldl (countOn s.loops.config.iterationBits e.body) e.iteration

/-- The event leads the counts of the entry of this index apart. -/
def strays (index : Nat) : Stream × Event → Bool
  | (_, .fetch _ _) => false
  | (s, .commit primary mispredicted mayAllocate way) =>
    match s.inFlight with
    | [] => false
    | (lookup, outcome) :: younger =>
      let later := awaited index lookup.tag younger
      (lookup.hit? = some index && s.loops.entries[index]?.any fun e =>
          e.tag? = some lookup.tag &&
            e.strays s.loops.config.iterationBits lookup outcome primary later) ||
        (s.loops.givesAway lookup mispredicted mayAllocate way index && !later.isEmpty)

/-- The event brings the counts of the entry of this index together again. -/
def renews (index : Nat) : Stream × Event → Bool
  | (s, .fetch pc outcome) =>
    (s.loops.lookup pc).hit? = some index &&
      s.loops.entries[index]?.any fun e => outcome ≠ e.body
  | (s, .commit _ mispredicted mayAllocate way) =>
    s.inFlight.head?.any fun x => s.loops.givesAway x.1 mispredicted mayAllocate way index

variable {index : Nat} {s : Stream}

theorem InStep.fetch {pc : UInt64} {outcome : Direction}
    (h : s.InStep index ∨ renews index (s, .fetch pc outcome) = true) :
    (s.step (.fetch pc outcome)).InStep index := by
  intro e' tag hentry' htag
  simp only [step, speculate] at hentry' ⊢
  rw [awaited_append, List.foldl_append, config_modifyHeld]
  by_cases hhit : (s.loops.lookup pc).hit? = some index
  · obtain ⟨e, hentry, hcarries, -⟩ := lookup_of_hit hhit
    rw [← tag_lookup] at hcarries
    rw [entries_modifyHeld _ hhit hentry hcarries, Option.some_inj] at hentry'
    subst hentry'
    have hfound : (s.loops.lookup pc).tag = tag := Option.some.inj (hcarries.symm.trans htag)
    rw [awaited_cons_of_found hhit hfound, Entry.specIteration_speculate]
    rcases h with hold | hrenews
    · rw [hold e tag hentry htag]
      rfl
    · -- an exit starts both counts anew, whatever they were
      have hexit : outcome ≠ e.body := by simpa [renews, hhit, hentry] using hrenews
      rw [countOn_of_ne hexit]
      exact (countOn_of_ne hexit _).symm
  · rw [entries_modifyHeld_of_ne _ hhit] at hentry'
    rw [awaited_cons_of_not_found fun hfound => hhit hfound.1]
    rcases h with hold | hrenews
    · exact hold e' tag hentry' htag
    · simp [renews, hhit] at hrenews

/-- A commit moves its branch from one count to the other, unless it leads the counts apart. -/
theorem InStep.commit {primary : Direction} {mispredicted mayAllocate : Bool} {way : Nat}
    (h : s.InStep index ∨ renews index (s, .commit primary mispredicted mayAllocate way) = true)
    (hstays : ¬ strays index (s, .commit primary mispredicted mayAllocate way) = true) :
    (s.step (.commit primary mispredicted mayAllocate way)).InStep index := by
  intro e' tag hentry' htag
  obtain ⟨p, inFlight⟩ := s
  cases inFlight with
  | nil =>
      rcases h with hold | hrenews
      · exact hold e' tag hentry' htag
      · simp [renews] at hrenews
  | cons oldest younger =>
      obtain ⟨lookup, outcome⟩ := oldest
      simp only [step, strays, Bool.or_eq_true, not_or] at hentry' hstays ⊢
      obtain ⟨htrained, hgiven⟩ := hstays
      cases hgives : p.givesAway lookup mispredicted mayAllocate way index with
      | true =>
          -- a new entry has counted nothing, and nothing of its loop is in flight
          obtain ⟨hmiss, rfl, rfl, hfound⟩ := givesAway_iff.1 hgives
          rw [entries_commit_of_find? hmiss hfound, Option.some_inj] at hentry'
          subst hentry'
          have htag : lookup.tag = tag := Option.some.inj htag
          have hnil : awaited index tag younger = [] := by simpa [hgives, htag] using hgiven
          rw [hnil]
          rfl
      | false =>
          have hold := h.resolve_right (by simp [renews, hgives])
          rw [entries_commit, Option.map_eq_some_iff] at hentry'
          obtain ⟨e, hentry, rfl⟩ := hentry'
          have hchange := commitEntry_of_not_givesAway outcome primary hgives e
          have hconfig := (p.frame_of_commit lookup outcome primary mispredicted mayAllocate way).1
          simp only [hconfig]
          split at hchange
          · next hheld =>
              obtain ⟨hhit, hcarries⟩ := hheld
              rw [hchange] at htag ⊢
              rw [Entry.tag?_train] at htag
              obtain rfl : lookup.tag = tag := Option.some.inj (hcarries.symm.trans htag)
              have hcounts := hold e lookup.tag hentry htag
              simp only [awaited_cons_of_found hhit rfl] at hcounts
              refine Entry.specIteration_train_of_not_strays ?_ hcounts
              simpa [hhit, hentry, hcarries] using htrained
          · next hnot =>
              obtain ⟨age, hchange⟩ := hchange
              rw [hchange] at htag ⊢
              have hcounts := hold e tag hentry htag
              have hother : ¬ (lookup.hit? = some index ∧ lookup.tag = tag) :=
                fun hfound => hnot ⟨hfound.1, hfound.2 ▸ htag⟩
              simp only [awaited_cons_of_not_found hother] at hcounts
              exact hcounts

theorem InStep.step {event : Event} (h : s.InStep index ∨ renews index (s, event) = true)
    (hstays : ¬ strays index (s, event) = true) : (s.step event).InStep index := by
  cases event with
  | fetch pc outcome => exact InStep.fetch h
  | commit primary mispredicted mayAllocate way => exact InStep.commit h hstays

theorem inStep_blank (c : Config) (index : Nat) : InStep index { loops := blank c } := by
  intro e tag hentry htag
  rw [tag?_of_blank hentry] at htag
  cases htag

theorem inStep_of_run {c : Config} {events : List Event} {index : Nat}
    (hmended : Mended (strays index · = true) (renews index · = true)
      (moments step { loops := blank c } events)) :
    InStep index (run { loops := blank c } events) :=
  holds_of_mended (fun _ _ => InStep.step) (.inl (inStep_blank c index)) hmended

end Stream

end LoopPredictor

open LoopPredictor

/-- The two counts of a loop agree at rest.  In every run in which each branch is counted when it is
looked up, and committed in order: when no branch is in flight, the speculative count of an entry
that carries a tag is the committed one, if after each event that led the two apart there was one
that brought them together. -/
theorem loop_counts_agree_at_rest (c : LoopPredictor.Config) (events : List Stream.Event)
    (s : Stream) (hrun : Stream.run { loops := blank c } events = s) (hrest : s.inFlight = [])
    {index tag : Nat} {e : Entry} (hentry : s.loops.entries[index]? = some e)
    (htag : e.tag? = some tag)
    (hmended : Mended (Stream.strays index · = true) (Stream.renews index · = true)
      (moments Stream.step { loops := blank c } events)) :
    e.specIteration = e.iteration := by
  subst hrun
  have hcounts := Stream.inStep_of_run hmended e tag hentry htag
  rw [hrest] at hcounts
  exact hcounts

namespace LoopPredictor

/-- Branches of one loop, each committed before the next one is looked up. -/
def oneByOne (outcomes : List Direction) : List Stream.Event :=
  outcomes.flatMap fun outcome => [.fetch 0x8000 outcome, .commit .taken true true 0]

/-- After two passes of three branches the loop goes on where its exit is expected. -/
def missedExit : List Stream.Event :=
  oneByOne [.notTaken, .taken, .taken, .notTaken, .taken, .taken, .notTaken, .taken, .taken, .taken]

/-- The next exit, with the branch after it in flight. -/
def nextExit : List Stream.Event :=
  [.fetch 0x8000 .notTaken, .fetch 0x8000 .taken, .commit .taken true true 0,
    .commit .taken true true 0]

end LoopPredictor

/-- The loop that went on where its exit was expected is counted well again after its exit. -/
theorem missedExit_counts_agree_later :
    let start : Stream := { loops := blank twoSets.config }
    let s := start.run (missedExit ++ nextExit)
    s.inFlight = [] ∧
      (∃ x ∈ moments Stream.step start missedExit, Stream.strays 0 x = true) ∧
      Mended (Stream.strays 0 · = true) (Stream.renews 0 · = true)
        (moments Stream.step start (missedExit ++ nextExit)) ∧
      ∃ e, s.loops.entries[0]? = some e ∧ e.tag? = some 0 ∧ e.iteration = 1 ∧
        e.specIteration = e.iteration := by
  intro start s
  have hrest : s.inFlight = [] := by decide +kernel
  have hstrays : ∃ x ∈ moments Stream.step start missedExit, Stream.strays 0 x = true := by
    decide +kernel
  have hmended : Mended (Stream.strays 0 · = true) (Stream.renews 0 · = true)
      (moments Stream.step start (missedExit ++ nextExit)) := by decide +kernel
  have hcounted :
      (s.loops.entries[0]?).any (fun e => e.tag? = some 0 ∧ e.iteration = 1) = true := by
    decide +kernel
  obtain ⟨e, hentry, hfound⟩ := Option.any_eq_true _ _ |>.1 hcounted
  obtain ⟨htag, hcount⟩ := of_decide_eq_true hfound
  exact ⟨hrest, hstrays, hmended, e, hentry, htag, hcount,
    loop_counts_agree_at_rest twoSets.config _ s rfl hrest hentry htag hmended⟩

/-- Until then they differ, although no branch is in flight. -/
theorem missedExit_counts_differ :
    twoSets.config.validate = .ok () ∧
      let s := Stream.run { loops := blank twoSets.config } missedExit
      s.inFlight = [] ∧ ¬ ∀ e ∈ s.loops.entries, e.tag?.isSome = true →
        e.specIteration = e.iteration := by
  refine ⟨rfl, by decide +kernel, by decide +kernel⟩

end BranchPrediction
