import BranchPrediction.Proofs.Loops.Scan
import Mathlib.Data.List.Induction

/-!
# A loop is held twice only by branches that missed together

A commit sees from the lookup of its branch that no entry held it, and does not look again.  While
the branch was in flight another one of the same loop may have been given an entry, and then the
loop comes to be held by two ways, of which lookups find the first.

That is the only way in which it may happen.  In a run in which every branch is looked up and then
committed with that lookup, in order, two ways of a set carry the same tag only if two branches of
that set and tag were in flight together, had both missed, and were both given an entry
(`Flow.Gives`).  Two facts carry the induction (`Flow.Accounted`): that one, and that a branch in
flight which missed and finds its loop held by now was overtaken by an older one that had missed
as well.
-/

namespace BranchPrediction

namespace LoopPredictor

/-- A commit makes an entry carry a tag only by giving it to a branch of that tag. -/
theorem holds_commit {p : LoopPredictor} {lookup : Lookup} {outcome primary : Direction}
    {mispredicted mayAllocate : Bool} {way tag index : Nat}
    (hholds :
      (p.commit lookup outcome primary mispredicted mayAllocate way).holds tag index = true) :
    p.holds tag index = true ∨ tag = lookup.tag ∧ lookup.hit? = none ∧ mispredicted = true ∧
      mayAllocate = true ∧ (p.scan lookup.set way).find? p.isFree = some index := by
  by_cases htags :
      ((p.commit lookup outcome primary mispredicted mayAllocate way).entries[index]?).map
        (·.tag?) = (p.entries[index]?).map (·.tag?)
  · exact .inl (holds_congr htags tag ▸ hholds)
  · obtain ⟨hmiss, rfl, rfl, hfound⟩ := recipient_of_tag_ne htags
    obtain ⟨e, hentry, htag⟩ := (holds_eq_true_iff _ _ _).1 hholds
    rw [entries_commit_of_find? hmiss hfound outcome primary] at hentry
    obtain rfl := Option.some.inj hentry
    exact .inr ⟨(Option.some.inj htag).symm, hmiss, rfl, rfl, hfound⟩

/-! ## Branches in flight -/

/-- A loop predictor whose branches are committed in the order in which they were looked up. -/
structure Flow where
  loops : LoopPredictor
  /-- The lookups of all branches, oldest first; a branch is known by its number in this list. -/
  lookups : List Lookup := []
  /-- The number of branches that were committed. -/
  committed : Nat := 0

namespace Flow

inductive Event where
  /-- The next branch is looked up. -/
  | fetch (pc : UInt64)
  /-- The speculative count is advanced for a branch that was looked up. -/
  | speculate (number : Nat) (outcome : Direction)
  /-- The oldest branch in flight is committed with its lookup. -/
  | commit (outcome primary : Direction) (mispredicted mayAllocate : Bool) (way : Nat)

/-- The flow after an event; for a branch that was not looked up nothing happens. -/
def step (s : Flow) : Event → Flow
  | .fetch pc => { s with lookups := s.lookups ++ [s.loops.lookup pc] }
  | .speculate number outcome =>
    match s.lookups[number]? with
    | some lookup => { s with loops := s.loops.speculate lookup outcome }
    | none => s
  | .commit outcome primary mispredicted mayAllocate way =>
    match s.lookups[s.committed]? with
    | some lookup =>
      { s with
        loops := s.loops.commit lookup outcome primary mispredicted mayAllocate way
        committed := s.committed + 1 }
    | none => s

def run (s : Flow) (events : List Event) : Flow :=
  events.foldl step s

/-- The event commits the branch of this number, which had missed, and gives it an entry of the set
for its tag. -/
def Gives (set tag number : Nat) (x : Flow × Event) : Prop :=
  x.1.committed = number ∧ ∃ lookup outcome primary way,
    x.1.lookups[number]? = some lookup ∧ x.2 = .commit outcome primary true true way ∧
      lookup.hit? = none ∧ lookup.set = set ∧ lookup.tag = tag ∧
        (Call.commit lookup outcome primary true true way).Allocates set x.1.loops

/-- At some moments of the run two branches were given an entry of the set for the same tag, of
which the younger had been looked up, too, when the older was committed. -/
def Rivals (past : List (Flow × Event)) (set tag : Nat) : Prop :=
  ∃ first second older younger, [first, second].Sublist past ∧ Gives set tag older first ∧
    Gives set tag younger second ∧ older < younger ∧ younger < first.1.lookups.length

/-- What the past has to do with the ways that carry a tag. -/
structure Accounted (past : List (Flow × Event)) (s : Flow) : Prop where
  /-- Two ways of a set carry a tag only if there were rivals for it. -/
  twice : ∀ set tag i j, i ∈ s.loops.waysOf set → j ∈ s.loops.waysOf set → i ≠ j →
    s.loops.holds tag i = true → s.loops.holds tag j = true → Rivals past set tag
  /-- A branch in flight that missed, and the tag of which is in its set by now, was overtaken. -/
  overtaken : ∀ number lookup, s.committed ≤ number → s.lookups[number]? = some lookup →
    lookup.hit? = none → ∀ i ∈ s.loops.waysOf lookup.set, s.loops.holds lookup.tag i = true →
      ∃ first ∈ past, ∃ older, Gives lookup.set lookup.tag older first ∧ older < number ∧
        number < first.1.lookups.length

theorem Rivals.append {past : List (Flow × Event)} {set tag : Nat} (h : Rivals past set tag)
    (later : List (Flow × Event)) : Rivals (past ++ later) set tag := by
  obtain ⟨first, second, older, younger, hpast, hgives⟩ := h
  exact ⟨first, second, older, younger, hpast.trans (List.sublist_append_left _ _), hgives⟩

namespace Accounted

variable {past : List (Flow × Event)} {s : Flow}

theorem start (c : Config) : Accounted [] { loops := blank c } := by
  have hnone : ∀ tag i, (blank c).holds tag i = false := by
    intro tag i
    by_contra hholds
    rw [Bool.not_eq_false] at hholds
    obtain ⟨e, hentry, htag⟩ := (holds_eq_true_iff _ _ _).1 hholds
    rw [tag?_of_blank hentry] at htag
    cases htag
  refine ⟨fun set tag i j _ _ _ hholds _ => ?_, fun number lookup _ _ _ i _ hholds => ?_⟩
  · exact absurd hholds (by simp [hnone])
  · exact absurd hholds (by simp [hnone])

variable (h : s.Accounted past)

include h

/-- Where no entry comes to carry a tag, the account stays as it is. -/
theorem of_holds {x : Flow × Event} {loops : LoopPredictor}
    (hconfig : loops.config = s.loops.config)
    (hold : ∀ tag i, loops.holds tag i = true → s.loops.holds tag i = true) :
    Accounted (past ++ [x]) { s with loops } where
  twice set tag i j hi hj hne hholds hholds' := by
    rw [waysOf_congr hconfig] at hi hj
    exact (h.twice set tag i j hi hj hne (hold tag i hholds) (hold tag j hholds')).append [x]
  overtaken number lookup hnumber hlookup hmiss i hi hholds := by
    rw [waysOf_congr hconfig] at hi
    obtain ⟨first, hfirst, hovertaken⟩ :=
      h.overtaken number lookup hnumber hlookup hmiss i hi (hold _ i hholds)
    exact ⟨first, List.mem_append_left _ hfirst, hovertaken⟩

/-- A branch that has just been looked up, and missed, finds its tag nowhere in its set. -/
theorem fetch (pc : UInt64) :
    Accounted (past ++ [(s, .fetch pc)]) (s.step (.fetch pc)) where
  twice set tag i j hi hj hne hholds hholds' :=
    (h.twice set tag i j hi hj hne hholds hholds').append _
  overtaken number lookup hnumber hlookup hmiss i hi hholds := by
    rw [step] at hlookup hi hholds
    rcases Nat.lt_or_ge number s.lookups.length with hlt | hge
    · rw [List.getElem?_append_left hlt] at hlookup
      obtain ⟨first, hfirst, hovertaken⟩ :=
        h.overtaken number lookup hnumber hlookup hmiss i hi hholds
      exact ⟨first, List.mem_append_left _ hfirst, hovertaken⟩
    · rw [List.getElem?_append_right hge] at hlookup
      obtain rfl := List.mem_singleton.1 (List.mem_of_getElem? hlookup)
      rw [set_lookup] at hi
      rw [tag_lookup] at hholds
      have hnone := List.find?_eq_none.1 ((s.loops.hit?_lookup pc).symm.trans hmiss) i hi
      exact absurd hholds hnone

theorem speculate (number : Nat) (outcome : Direction) :
    Accounted (past ++ [(s, .speculate number outcome)])
      (s.step (.speculate number outcome)) := by
  rw [step]
  split
  · next lookup _ =>
      have htags := s.loops.tags_modifyHeld lookup fun e =>
        e.tag?_speculate s.loops.config.iterationBits outcome
      refine h.of_holds (s.loops.config_modifyHeld lookup _) fun tag i hholds => ?_
      rw [← holds_congr (htags i)]
      exact hholds
  · exact h.of_holds rfl fun _ _ hholds => hholds

/-- A branch that is given an entry beside one that carries its tag has a rival. -/
theorem rivals_of_find? {lookup : Lookup} (hlookup : s.lookups[s.committed]? = some lookup)
    (hmiss : lookup.hit? = none) {outcome primary : Direction} {way i j set : Nat}
    (hfound : (s.loops.scan lookup.set way).find? s.loops.isFree = some i)
    (hi : i ∈ s.loops.waysOf set) (hj : j ∈ s.loops.waysOf set)
    (hholds : s.loops.holds lookup.tag j = true) :
    Rivals (past ++ [(s, .commit outcome primary true true way)]) set lookup.tag := by
  have hmem := mem_waysOf_of_mem_scan (List.mem_of_find?_eq_some hfound)
  obtain rfl : lookup.set = set := (div_ways_of_mem hmem).symm.trans (div_ways_of_mem hi)
  obtain ⟨first, hfirst, older, hgives, hlt, hinFlight⟩ :=
    h.overtaken s.committed lookup (le_refl _) hlookup hmiss j hj hholds
  refine ⟨first, (s, .commit outcome primary true true way), older, s.committed, ?_, hgives, ?_,
    hlt, hinFlight⟩
  · exact (List.singleton_sublist.2 hfirst).append (List.Sublist.refl [_])
  · exact ⟨rfl, lookup, outcome, primary, way, hlookup, rfl, hmiss, rfl, rfl,
      allocates_of_find? hmiss hfound outcome primary⟩

theorem commit (outcome primary : Direction) (mispredicted mayAllocate : Bool) (way : Nat) :
    Accounted (past ++ [(s, .commit outcome primary mispredicted mayAllocate way)])
      (s.step (.commit outcome primary mispredicted mayAllocate way)) := by
  rw [step]
  split
  case h_2 => exact h.of_holds rfl fun _ _ hholds => hholds
  case h_1 lookup hlookup =>
    have hconfig := (s.loops.frame_of_commit lookup outcome primary mispredicted mayAllocate way).1
    constructor
    case twice =>
      intro set tag i j hi hj hne hholds hholds'
      rw [waysOf_congr hconfig] at hi hj
      -- one of the two carried the tag before, since a commit gives one entry away
      rcases holds_commit hholds with hold | ⟨rfl, hmiss, rfl, rfl, hfound⟩
      · rcases holds_commit hholds' with hold' | ⟨rfl, hmiss, rfl, rfl, hfound⟩
        · exact (h.twice set tag i j hi hj hne hold hold').append _
        · exact h.rivals_of_find? hlookup hmiss hfound hj hi hold
      · rcases holds_commit hholds' with hold' | ⟨-, -, -, -, hfound'⟩
        · exact h.rivals_of_find? hlookup hmiss hfound hi hj hold'
        · exact absurd (Option.some.inj (hfound.symm.trans hfound')) hne
    case overtaken =>
      intro number younger hnumber hyounger hmiss i hi hholds
      rw [waysOf_congr hconfig] at hi
      rcases holds_commit hholds with hold | ⟨htag, holder, rfl, rfl, hfound⟩
      · obtain ⟨first, hfirst, hovertaken⟩ := h.overtaken number younger
          (Nat.le_of_succ_le hnumber) hyounger hmiss i hi hold
        exact ⟨first, List.mem_append_left _ hfirst, hovertaken⟩
      · have hmem := mem_waysOf_of_mem_scan (List.mem_of_find?_eq_some hfound)
        have hset : lookup.set = younger.set :=
          (div_ways_of_mem hmem).symm.trans (div_ways_of_mem hi)
        refine ⟨_, List.mem_append_right _ List.mem_cons_self, s.committed, ?_, hnumber, ?_⟩
        · exact ⟨rfl, lookup, outcome, primary, way, hlookup, rfl, holder, hset, htag.symm,
            hset ▸ allocates_of_find? holder hfound outcome primary⟩
        · exact (List.getElem?_eq_some_iff.1 hyounger).1

theorem step (event : Event) : Accounted (past ++ [(s, event)]) (s.step event) := by
  cases event with
  | fetch pc => exact h.fetch pc
  | speculate number outcome => exact h.speculate number outcome
  | commit outcome primary mispredicted mayAllocate way =>
      exact h.commit outcome primary mispredicted mayAllocate way

end Accounted

theorem accounted_of_run (c : Config) (events : List Event) :
    Accounted (moments step { loops := blank c } events) (run { loops := blank c } events) := by
  induction events using List.reverseRecOn with
  | nil => exact .start c
  | append_singleton events last ih =>
      rw [moments_concat, run, List.foldl_append]
      exact ih.step last

end Flow

end LoopPredictor

open LoopPredictor

/-- A loop is held twice only by branches that missed together.  In every run in which each branch
is looked up, and committed in order with that lookup: if two ways of a set carry the same tag, then
two branches of that set and tag were both given an entry after they had missed, the younger of
which had been looked up before the older was committed. -/
theorem loop_held_twice_by_rivals (c : LoopPredictor.Config) (events : List Flow.Event) (s : Flow)
    (hrun : Flow.run { loops := blank c } events = s) {set tag i j : Nat}
    (hi : i ∈ s.loops.waysOf set) (hj : j ∈ s.loops.waysOf set) (hne : i ≠ j)
    (hholds : s.loops.holds tag i = true) (hholds' : s.loops.holds tag j = true) :
    ∃ first second older younger,
      [first, second].Sublist (moments Flow.step { loops := blank c } events) ∧
        Flow.Gives set tag older first ∧ Flow.Gives set tag younger second ∧
          older < younger ∧ younger < first.1.lookups.length := by
  subst hrun
  exact (Flow.accounted_of_run c events).twice set tag i j hi hj hne hholds hholds'

namespace LoopPredictor

/-- A branch is met twice before it is committed for the first time. -/
def twins : List Flow.Event :=
  [.fetch 0x8000, .fetch 0x8000, .speculate 0 .notTaken, .speculate 1 .notTaken,
    .commit .notTaken .taken true true 0, .commit .notTaken .taken true true 1]

end LoopPredictor

theorem twins_are_rivals :
    let s := Flow.run { loops := blank twoSets.config } twins
    0 ∈ s.loops.waysOf 0 ∧ 1 ∈ s.loops.waysOf 0 ∧ s.loops.holds 0 0 = true ∧
      s.loops.holds 0 1 = true ∧
      ∃ first second older younger,
        [first, second].Sublist (moments Flow.step { loops := blank twoSets.config } twins) ∧
          Flow.Gives 0 0 older first ∧ Flow.Gives 0 0 younger second ∧
            older < younger ∧ younger < first.1.lookups.length := by
  intro s
  have hfirst : 0 ∈ s.loops.waysOf 0 := by decide +kernel
  have hsecond : 1 ∈ s.loops.waysOf 0 := by decide +kernel
  have hholds : s.loops.holds 0 0 = true := by decide +kernel
  have hholds' : s.loops.holds 0 1 = true := by decide +kernel
  exact ⟨hfirst, hsecond, hholds, hholds', loop_held_twice_by_rivals twoSets.config twins s rfl
    hfirst hsecond (by decide) hholds hholds'⟩

/-- Two ways of one set carry the same tag, although each branch was looked up, advanced and
committed in order. -/
theorem twins_hold_one_loop :
    twoSets.config.validate = .ok () ∧
      let s := Flow.run { loops := blank twoSets.config } twins
      s.committed = s.lookups.length ∧ ¬ ∀ set tag, ∀ i ∈ s.loops.waysOf set,
        ∀ j ∈ s.loops.waysOf set, s.loops.holds tag i = true → s.loops.holds tag j = true →
          i = j := by
  refine ⟨rfl, by decide +kernel, fun honce => ?_⟩
  exact absurd (honce 0 0 0 (by decide +kernel) 1 (by decide +kernel) (by decide +kernel)
    (by decide +kernel)) (by decide)

end BranchPrediction
