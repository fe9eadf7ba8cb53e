import BranchPrediction.Proofs.Loops.Bounds
import BranchPrediction.Proofs.Moments

/-!
# What an allocation for a loop finds, and that it does not fail for ever

A commit for a branch that no entry held may give it one: the first entry of age 0 that a scan of
its set visits.  The entries before that one, or all if there is none, lose one from their age
(`Granted`).

So a scan that finds nothing has taken one from the age of every entry of the set, wherever it
started.  As many commits as an age has values cannot all find nothing, unless something gives age
back in between (`exists_allocates`).
-/

namespace BranchPrediction

namespace LoopPredictor

/-! ## What a commit that may allocate does -/

theorem trust_modifyHeld (p : LoopPredictor) (lookup : Lookup) (f : Entry → Entry) :
    (p.modifyHeld lookup f).trust = p.trust := by
  unfold modifyHeld
  split
  · split
    · rfl
    · rfl
  · rfl

theorem trust_allocateAmong (tag : Nat) (outcome : Direction) (indices : List Nat)
    (p : LoopPredictor) : (allocateAmong tag outcome indices p).trust = p.trust := by
  induction indices generalizing p with
  | nil => rfl
  | cons index rest ih =>
      rw [allocateAmong]
      split
      · exact ih p
      · split
        · rfl
        · exact ih _

theorem frame_of_commit (p : LoopPredictor) (lookup : Lookup) (outcome primary : Direction)
    (mispredicted mayAllocate : Bool) (way : Nat) :
    let k := p.commit lookup outcome primary mispredicted mayAllocate way
    k.config = p.config ∧ k.trust = p.trust := by
  intro k
  have hframe := p.frame_commit lookup outcome primary mispredicted mayAllocate way
  refine ⟨congrArg Prod.fst hframe, ?_⟩
  change (p.commit lookup outcome primary mispredicted mayAllocate way).trust = p.trust
  unfold commit
  split
  · exact p.trust_modifyHeld lookup _
  · split
    · exact trust_allocateAmong _ _ _ p
    · rfl

/-- A commit turns `p` into `k`, and had to find an entry for a branch that no entry held. -/
structure Granted (c : Config) (p k : LoopPredictor) (lookup : Lookup) (outcome : Direction)
    (way : Nat) : Prop where
  /-- The first free entry that the scan visits becomes a new one for the branch. -/
  fresh : ∀ i < c.ways, p.isFree (visit c lookup.set way i) = true →
    (∀ j < i, p.isFree (visit c lookup.set way j) = false) →
      ∃ e, k.entries[visit c lookup.set way i]? = some e ∧ e.tag? = some lookup.tag ∧
        e.body = outcome.opposite ∧ e.age.value = 2 ^ c.ageBits - 1 ∧ e.trip = 0 ∧
          e.iteration = 0 ∧ e.specIteration = 0 ∧ e.confidence.value = 0
  /-- The entries before it, or all if there is none, lose one from their age, and nothing else. -/
  passed : ∀ i < c.ways, (∀ j ≤ i, p.isFree (visit c lookup.set way j) = false) →
    ∃ e age, p.entries[visit c lookup.set way i]? = some e ∧
      k.entries[visit c lookup.set way i]? = some { e with age } ∧ age.range = e.age.range ∧
        age.value = e.age.value - 1
  /-- Every other entry is as before. -/
  others : ∀ index, (∀ i < c.ways, (∀ j < i, p.isFree (visit c lookup.set way j) = false) →
    visit c lookup.set way i ≠ index) → k.entries[index]? = p.entries[index]?
  /-- So are the configuration and the trust counters. -/
  frame : k.config = p.config ∧ k.trust = p.trust

theorem value_age_allocated (c : Config) (tag : Nat) (outcome : Direction) :
    (Entry.allocated c tag outcome).age.value = 2 ^ c.ageBits - 1 := by
  have hmax := (Counter.Range.unsigned c.ageBits).zero_le_max
  change ((Counter.zero (.unsigned c.ageBits)).set (Counter.Range.unsigned c.ageBits).max).value = _
  rw [Counter.value_set]
  simp only [Counter.range_zero, Counter.Range.unsigned, Nat.one_shiftLeft] at hmax ⊢
  push_cast at hmax ⊢
  omega

theorem exists_entry_of_mem {c : Config} {p : LoopPredictor} (h : p.Regular c) {set index : Nat}
    (hset : set < 2 ^ c.logSets) (hindex : index ∈ List.range' (set * c.ways) c.ways) :
    ∃ e, p.entries[index]? = some e := by
  obtain ⟨k, hk, rfl⟩ := List.mem_range'.1 hindex
  have hlt : set * c.ways + 1 * k < p.entries.size := by
    rw [h.entries_size, Config.size, Nat.one_shiftLeft, Nat.one_mul]
    calc set * c.ways + k < set * c.ways + c.ways := Nat.add_lt_add_left hk _
      _ = (set + 1) * c.ways := (Nat.succ_mul ..).symm
      _ ≤ 2 ^ c.logSets * c.ways := Nat.mul_le_mul_right _ hset
  exact ⟨_, Array.getElem?_eq_getElem hlt⟩

section Commit

variable {c : Config} {p : LoopPredictor} (h : p.Regular c) {lookup : Lookup}
  (hset : lookup.set < 2 ^ c.logSets)

include h hset

theorem granted_commit (hmiss : lookup.hit? = none) (outcome primary : Direction) (way : Nat) :
    Granted c p (p.commit lookup outcome primary true true way) lookup outcome way := by
  have hentries : ∀ index, (p.commit lookup outcome primary true true way).entries[index]? = _ :=
    fun index => (p.entries_commit lookup outcome primary true true way index).trans
      (congrArg (fun change => (p.entries[index]?).map change)
        (commitEntry_of_miss outcome primary way index hmiss))
  obtain rfl := h.config_eq
  constructor
  case fresh =>
    intro i hi hfree hbefore
    obtain ⟨e, hentry, -⟩ := isFree_iff.1 hfree
    have hfound := (find?_scan_eq_some_iff hi).2 ⟨hfree, hbefore⟩
    refine ⟨.allocated p.config lookup.tag outcome, ?_, rfl, rfl, value_age_allocated .., rfl, rfl,
      rfl, rfl⟩
    rw [hentries, hentry, Option.map_some, grant, if_pos hfound]
  case passed =>
    intro i hi hnone
    obtain ⟨e, hentry⟩ := exists_entry_of_mem h hset (visit_mem hi)
    have hpassed : visit p.config lookup.set way i ∈
        (p.scan lookup.set way).takeWhile (fun index => !p.isFree index) :=
      (visit_mem_takeWhile_iff hi).2 hnone
    have hnot : (p.scan lookup.set way).find? p.isFree ≠
        some (visit p.config lookup.set way i) := by
      intro hfound
      exact Bool.false_ne_true ((hnone i (le_refl i)).symm.trans (List.find?_some hfound))
    refine ⟨e, e.age.decrement, hentry, ?_, e.age.range_decrement, ?_⟩
    · rw [hentries, hentry, Option.map_some, grant, if_neg hnot, if_pos hpassed]
    · have hage : e.age.value ≠ 0 := fun hzero => Bool.false_ne_true
        ((hnone i (le_refl i)).symm.trans (isFree_iff.2 ⟨e, hentry, hzero⟩))
      obtain ⟨hrange, hmin, -⟩ := h.age e (Array.mem_of_getElem? hentry)
      have hdecrement := e.age.value_decrement
      rw [hrange] at hdecrement
      simp only [Counter.Range.unsigned] at hmin hdecrement
      omega
  case others =>
    intro index hother
    have hid : grant p.config lookup.tag outcome ((p.scan lookup.set way).find? p.isFree)
        ((p.scan lookup.set way).takeWhile fun index => !p.isFree index) index = id := by
      refine funext (grant_of_not_mem (fun hfound => ?_) fun hpassed => ?_)
      · obtain ⟨i, hi, rfl⟩ := List.mem_map.1 (List.mem_of_find?_eq_some hfound)
        have hi := List.mem_range.1 hi
        exact hother i hi ((find?_scan_eq_some_iff hi).1 hfound).2 rfl
      · obtain ⟨i, hi, rfl⟩ := List.mem_map.1 (List.takeWhile_subset _ hpassed)
        have hi := List.mem_range.1 hi
        exact hother i hi (fun j hj => (visit_mem_takeWhile_iff hi).1 hpassed j hj.le) rfl
    rw [hentries, hid, Option.map_id]
    rfl
  case frame => exact p.frame_of_commit lookup outcome primary true true way

end Commit

/-! ## Progress -/

/-- The call asks for an entry of the set: it commits a branch that no entry held, that was
mispredicted, and that may have one. -/
def Call.seeks (set : Nat) : Call → Bool
  | commit lookup _ _ mispredicted mayAllocate _ =>
    lookup.hit?.isNone && lookup.set = set && mispredicted && mayAllocate
  | _ => false

theorem Call.exists_of_seeks {set : Nat} {call : Call} (hseeks : call.seeks set = true) :
    ∃ lookup outcome primary way, call = .commit lookup outcome primary true true way ∧
      lookup.hit? = none ∧ lookup.set = set := by
  cases call with
  | commit lookup outcome primary mispredicted mayAllocate way =>
      simp only [seeks, Bool.and_eq_true, Option.isNone_iff_eq_none, decide_eq_true_eq] at hseeks
      obtain ⟨⟨⟨hmiss, hset⟩, rfl⟩, rfl⟩ := hseeks
      exact ⟨lookup, outcome, primary, way, rfl, hmiss, hset⟩
  | speculate | restore | trainTrust | reset => cases hseeks

/-- The call makes a new entry for its branch of a free one of the set. -/
def Call.Allocates (set : Nat) (p : LoopPredictor) (call : Call) : Prop :=
  ∃ lookup index outcome, call.lookup? = some lookup ∧ index ∈ p.waysOf set ∧
    p.isFree index = true ∧
      (call.run p).entries[index]? = some (.allocated p.config lookup.tag outcome)

/-- The ages of the entries of a set are below a bound. -/
def AgesBelow (set : Nat) (bound : Int) (p : LoopPredictor) : Prop :=
  ∀ index ∈ p.waysOf set, ∀ e, p.entries[index]? = some e → e.age.value < bound

/-- The call raises the age of no entry of the set. -/
def Call.Calm (set : Nat) (p : LoopPredictor) (call : Call) : Prop :=
  ∀ index ∈ p.waysOf set, ∀ e e', p.entries[index]? = some e →
    (call.run p).entries[index]? = some e' → e'.age.value ≤ e.age.value

theorem allocates_of_find? {p : LoopPredictor} {lookup : Lookup} (hmiss : lookup.hit? = none)
    {way index : Nat} (hfound : (p.scan lookup.set way).find? p.isFree = some index)
    (outcome primary : Direction) :
    (Call.commit lookup outcome primary true true way).Allocates lookup.set p := by
  have hmem := mem_waysOf_of_mem_scan (List.mem_of_find?_eq_some hfound)
  exact ⟨lookup, index, outcome, rfl, hmem, List.find?_some hfound,
    entries_commit_of_find? hmiss hfound outcome primary⟩

section Progress

variable {c : Config} {p : LoopPredictor} (h : p.Regular c) {set : Nat}

include h

/-- A call that seeks an entry allocates one, or takes one from all ages. -/
theorem allocates_or_agesBelow (hset : set < 2 ^ c.logSets) {call : Call}
    (hseeks : call.seeks set = true) {bound : Int} (hbelow : p.AgesBelow set bound) :
    call.Allocates set p ∨ (call.run p).AgesBelow set (bound - 1) := by
  obtain ⟨lookup, outcome, primary, way, rfl, hmiss, rfl⟩ := Call.exists_of_seeks hseeks
  have hgranted := granted_commit h hset hmiss outcome primary way
  obtain rfl := h.config_eq
  cases hfound : (p.scan lookup.set way).find? p.isFree with
  | some index => exact .inl (allocates_of_find? hmiss hfound outcome primary)
  | none =>
      refine .inr fun index hindex e' hentry' => ?_
      rw [waysOf_congr (Call.config_run p _)] at hindex
      obtain ⟨i, hi, rfl⟩ : ∃ i < p.config.ways, visit p.config lookup.set way i = index :=
        exists_visit_eq hindex
      have hnone : ∀ j ≤ i, p.isFree (visit p.config lookup.set way j) = false := by
        intro j hj
        have hvisited : visit p.config lookup.set way j ∈ p.scan lookup.set way :=
          List.mem_map_of_mem (List.mem_range.2 (Nat.lt_of_le_of_lt hj hi))
        simpa using List.find?_eq_none.1 hfound _ hvisited
      obtain ⟨e, age, hentry, hafter, -, hvalue⟩ := hgranted.passed i hi hnone
      obtain rfl := Option.some.inj (hafter.symm.trans hentry')
      have hlt := hbelow _ hindex e hentry
      simp only
      omega

theorem AgesBelow.of_calm {call : Call} {bound : Int} (hbelow : p.AgesBelow set bound)
    (hcalm : call.Calm set p) : (call.run p).AgesBelow set bound := by
  intro index hindex e' hentry'
  rw [waysOf_congr (Call.config_run p call)] at hindex
  have hlt : index < p.entries.size := by
    rw [h.entries_size, ← (call.regular_run h).entries_size]
    exact (Array.getElem?_eq_some_iff.1 hentry').1
  have hentry := Array.getElem?_eq_getElem hlt
  exact Int.lt_of_le_of_lt (hcalm index hindex _ e' hentry hentry') (hbelow index hindex _ hentry)

/-- No age is below zero. -/
theorem AgesBelow.pos (hways : 0 < c.ways) (hset : set < 2 ^ c.logSets) {bound : Int}
    (hbelow : p.AgesBelow set bound) : 0 < bound := by
  have hindex : set * c.ways ∈ List.range' (set * c.ways) c.ways := by simpa using hways
  obtain ⟨e, hentry⟩ := exists_entry_of_mem h hset hindex
  have hmin := (h.age e (Array.mem_of_getElem? hentry)).min_le
  exact Int.lt_of_le_of_lt hmin (hbelow _ (by rw [waysOf, h.config_eq]; exact hindex) e hentry)

theorem agesBelow_of_regular : p.AgesBelow set (2 ^ c.ageBits) := by
  intro index _ e hentry
  have hmax := (h.age e (Array.mem_of_getElem? hentry)).le_max
  simp only [Counter.Range.unsigned, Nat.one_shiftLeft] at hmax
  push_cast at hmax
  omega

/-- As many calls that seek an entry of the set as its entries have years at most include one that
allocates, if no other call gives age to an entry of the set. -/
theorem exists_allocates (hways : 0 < c.ways) (hset : set < 2 ^ c.logSets) {bound : Nat}
    (hbelow : p.AgesBelow set bound) {calls : List Call}
    (hcalm : ∀ x ∈ moments Call.run p calls, x.2.seeks set = false → x.2.Calm set x.1)
    (hcount : bound ≤ calls.countP (·.seeks set)) :
    ∃ x ∈ moments Call.run p calls, x.2.seeks set = true ∧ x.2.Allocates set x.1 := by
  induction calls generalizing p bound with
  | nil =>
      have hpos := AgesBelow.pos h hways hset hbelow
      rw [List.countP_nil] at hcount
      omega
  | cons call rest ih =>
      rw [moments_cons] at hcalm ⊢
      have hlater : ∀ {bound : Nat}, (call.run p).AgesBelow set bound →
          bound ≤ rest.countP (·.seeks set) →
            ∃ x ∈ (p, call) :: moments Call.run (call.run p) rest,
              x.2.seeks set = true ∧ x.2.Allocates set x.1 := by
        intro bound hbelow hcount
        obtain ⟨x, hx, hallocates⟩ := ih (call.regular_run h) hbelow
          (fun x hx => hcalm x (List.mem_cons_of_mem _ hx)) hcount
        exact ⟨x, List.mem_cons_of_mem _ hx, hallocates⟩
      cases hseeks : call.seeks set with
      | true =>
          simp only [List.countP_cons, hseeks, if_true] at hcount
          rcases allocates_or_agesBelow h hset hseeks hbelow with hallocates | hyounger
          · exact ⟨(p, call), List.mem_cons_self, hseeks, hallocates⟩
          · have hpos := AgesBelow.pos h hways hset hbelow
            have hcast : ((bound - 1 : Nat) : Int) = bound - 1 := by omega
            exact hlater (hcast ▸ hyounger) (by omega)
      | false =>
          simp only [List.countP_cons, hseeks, Bool.false_eq_true, if_false, Nat.add_zero] at hcount
          have hquiet := hcalm (p, call) List.mem_cons_self hseeks
          exact hlater (AgesBelow.of_calm h hbelow hquiet) hcount

end Progress

/-! ## Lookups that were answered -/

/-- A lookup that was answered is of a set that exists, and found an entry of that set. -/
theorem Usage.Sound.lookup_set {c : Config} (hvalid : c.validate = .ok ()) {s : Usage}
    (h : s.Sound c) {lookup : Lookup} (hlookup : lookup ∈ s.answered) :
    lookup.set < 2 ^ c.logSets ∧ lookup.Within c := by
  obtain ⟨p, pc, hp, rfl⟩ := h.answered lookup hlookup
  obtain rfl := hp.regular.config_eq
  have hset := ((hp.regular.ready hvalid).selects_lookup pc).set_lt
  rw [Nat.one_shiftLeft] at hset
  exact ⟨hset, p.within_lookup pc⟩

end LoopPredictor

open LoopPredictor

/-- The allocation of entries for loops.  In every state that a loop predictor of a valid
configuration may get into, for every lookup that it has answered so far and every way: a commit
changes entries of the lookup's set alone, and the tag of one entry at most; if it seeks an entry
for its branch, what it does is said by `Granted`.  And of any `2 ^ ageBits` commits that seek an
entry of the same set, whatever ways they start from, one allocates, if nothing that is done in
between raises the age of an entry of the set. -/
theorem loop_allocation_scans {c : LoopPredictor.Config} (hvalid : c.validate = .ok ())
    (events : List Usage.Event) (s : Usage) (hrun : Usage.run { loops := blank c } events = s)
    (lookup : LoopPredictor.Lookup) (hlookup : lookup ∈ s.answered) :
    (∀ (outcome primary : Direction) (mispredicted mayAllocate : Bool) (way : Nat),
      let k : LoopPredictor :=
        s.loops.commit lookup outcome primary mispredicted mayAllocate way
      (∀ index, index ∉ s.loops.waysOf lookup.set → k.entries[index]? = s.loops.entries[index]?) ∧
        (∀ i j : Nat, (k.entries[i]?).map Entry.tag? ≠ (s.loops.entries[i]?).map Entry.tag? →
          (k.entries[j]?).map Entry.tag? ≠ (s.loops.entries[j]?).map Entry.tag? → i = j) ∧
        (lookup.hit? = none → mispredicted = true → mayAllocate = true →
          Granted c s.loops k lookup outcome way)) ∧
      ∀ calls : List LoopPredictor.Call,
        (∀ x ∈ moments Call.run s.loops calls, x.2.seeks lookup.set = false →
          x.2.Calm lookup.set x.1) →
        2 ^ c.ageBits ≤ calls.countP (·.seeks lookup.set) →
          ∃ x ∈ moments Call.run s.loops calls, x.2.seeks lookup.set = true ∧
            x.2.Allocates lookup.set x.1 := by
  have hsound : s.Sound c := hrun ▸ (Usage.Sound.blank c).run events
  have hregular := hsound.loops.regular
  obtain ⟨hset, hwithin⟩ := hsound.lookup_set hvalid hlookup
  refine ⟨fun outcome primary mispredicted mayAllocate way => ⟨?_, ?_, ?_⟩, ?_⟩
  · intro index hindex
    exact entries_commit_of_not_mem (hregular.config_eq ▸ hwithin) hindex outcome primary
      mispredicted mayAllocate way
  · intro i j hi hj
    obtain ⟨-, -, -, hfirst⟩ := recipient_of_tag_ne hi
    obtain ⟨-, -, -, hsecond⟩ := recipient_of_tag_ne hj
    exact Option.some.inj (hfirst.symm.trans hsecond)
  · rintro hmiss rfl rfl
    exact granted_commit hregular hset hmiss outcome primary way
  · intro calls hcalm hcount
    obtain ⟨hways, -, -, -⟩ := c.sizes_of_validate hvalid
    have hbelow : s.loops.AgesBelow lookup.set ((2 ^ c.ageBits : Nat) : Int) := by
      push_cast
      exact agesBelow_of_regular hregular
    exact exists_allocates hregular (Nat.pos_of_ne_zero hways) hset hbelow hcalm hcount

namespace LoopPredictor

/-- Both ways of a set are given to loops, and a branch of that set is looked up that misses. -/
def crowdedSet : List Usage.Event :=
  [.lookup 0x8000, .lookup 0x8008, .lookup 0x8010,
    .call (.commit {} .notTaken .taken true true 0),
    .call (.commit { tag := 1 } .notTaken .taken true true 1)]

/-- Twice the branch that missed seeks an entry. -/
def twoMisses : List Call :=
  [.commit { tag := 2 } .notTaken .taken true true 1, .trainTrust 0x8000 true,
    .commit { tag := 2 } .notTaken .taken true true 0]

end LoopPredictor

/-- The first of two commits that seek an entry makes the entries of the set younger, and the second
one allocates. -/
theorem crowdedSet_allocation_scans :
    let c := twoSets.config
    let s := Usage.run { loops := blank c } crowdedSet
    let k := s.loops.commit { tag := 2 } .notTaken .taken true true 1
    c.validate = .ok () ∧ { tag := 2 } ∈ s.answered ∧
      Granted c s.loops k { tag := 2 } .notTaken 1 ∧ k.isFree 0 = true ∧ k.isFree 1 = true ∧
      (∀ x ∈ moments Call.run s.loops twoMisses, x.2.seeks 0 = false → x.2.Calm 0 x.1) ∧
      ∃ x ∈ moments Call.run s.loops twoMisses, x.2.seeks 0 = true ∧ x.2.Allocates 0 x.1 := by
  intro c s k
  have hvalid : c.validate = .ok () := rfl
  have hlookup : { tag := 2 } ∈ s.answered := by decide +kernel
  obtain ⟨hcommit, hprogress⟩ := loop_allocation_scans hvalid crowdedSet s rfl { tag := 2 } hlookup
  have hcalm : ∀ x ∈ moments Call.run s.loops twoMisses,
      x.2.seeks 0 = false → x.2.Calm 0 x.1 := by
    intro x hx hseeks
    have hcall : x.2 = .trainTrust 0x8000 true := by
      rcases List.mem_cons.1 hx with rfl | hx
      · cases hseeks
      rcases List.mem_cons.1 hx with rfl | hx
      · rfl
      obtain rfl := List.mem_singleton.1 hx
      cases hseeks
    rw [hcall]
    intro index _ e e' hentry hentry'
    obtain rfl := Option.some.inj (hentry.symm.trans hentry')
    exact le_refl _
  exact ⟨hvalid, hlookup, (hcommit .notTaken .taken true true 1).2.2 rfl rfl rfl,
    by decide +kernel, by decide +kernel, hcalm, hprogress twoMisses hcalm (by decide)⟩

end BranchPrediction
