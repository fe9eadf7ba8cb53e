import BranchPrediction.Proofs.Loops.Entries
import BranchPrediction.Proofs.Search
import Mathlib.Data.List.Nodup
import Mathlib.Data.Nat.ModEq

/-!
# What a commit makes of every entry

A commit trains the entry that the lookup of its branch found, if it still carries the tag.  If the
lookup found none, it may give the branch an entry: it scans the ways of the branch's set once
around, from a way that was drawn at random, takes the first entry of age 0, and takes one from the
age of those before it.  Since a scan visits no entry twice, its effect on each is that of one
function (`grant`), and so is the effect of a commit (`entries_commit`).  What else is said about
commits follows from that.

A call for a branch of another set changes no entry of this one (`Call.entries_run_of_elsewhere`).
-/

namespace BranchPrediction

namespace LoopPredictor

/-! ## The scan, without the scan -/

section Among

variable {p : LoopPredictor} {tag : Nat} {outcome : Direction} {indices : List Nat}

/-- There is an entry of this index, and it may be replaced. -/
def isFree (p : LoopPredictor) (index : Nat) : Bool :=
  (p.entries[index]?).any (·.age.value = 0)

theorem isFree_iff {index : Nat} :
    p.isFree index = true ↔ ∃ e, p.entries[index]? = some e ∧ e.age.value = 0 := by
  simp only [isFree, Option.any_eq_true, decide_eq_true_iff]

theorem isFree_modifyEntry_of_ne {index other : Nat} (hne : index ≠ other) (f : Entry → Entry) :
    (p.modifyEntry index f).isFree other = p.isFree other := by
  rw [isFree, entries_modifyEntry, if_neg hne, isFree]

/-- What an allocation makes of an entry. -/
def grant (c : Config) (tag : Nat) (outcome : Direction) (recipient? : Option Nat)
    (passed : List Nat) (index : Nat) (e : Entry) : Entry :=
  if recipient? = some index then .allocated c tag outcome
  else if index ∈ passed then { e with age := e.age.decrement }
  else e

theorem grant_of_not_mem {c : Config} {recipient? : Option Nat} {passed : List Nat} {index : Nat}
    (hrecipient : recipient? ≠ some index) (hpassed : index ∉ passed) (e : Entry) :
    grant c tag outcome recipient? passed index e = e := by
  rw [grant, if_neg hrecipient, if_neg hpassed]

theorem grant_cons_of_ne {c : Config} {recipient? : Option Nat} {passed : List Nat}
    {first index : Nat} (hne : first ≠ index) :
    grant c tag outcome recipient? (first :: passed) index =
      grant c tag outcome recipient? passed index := by
  funext e
  simp [grant, hne.symm]

/-- The first free entry is replaced, and those before it lose one from their age.  Which entries
are free is fixed beforehand, since a scan does not visit an entry twice. -/
theorem entries_allocateAmong (hnodup : indices.Nodup) {free : Nat → Bool}
    (hfree : ∀ index ∈ indices, p.isFree index = free index) (index : Nat) :
    (allocateAmong tag outcome indices p).entries[index]? =
      (p.entries[index]?).map (grant p.config tag outcome (indices.find? free)
        (indices.takeWhile fun index => !free index) index) := by
  induction indices generalizing p with
  | nil =>
      have hid : grant p.config tag outcome none [] index = id :=
        funext (grant_of_not_mem nofun List.not_mem_nil)
      rw [List.find?_nil, List.takeWhile_nil, hid, Option.map_id]
      rfl
  | cons first rest ih =>
      obtain ⟨hfirst, hrest⟩ := List.nodup_cons.1 hnodup
      have hrecipient : rest.find? free ≠ some first :=
        fun hfound => hfirst (List.mem_of_find?_eq_some hfound)
      have hpassed : first ∉ rest.takeWhile fun index => !free index :=
        fun hmem => hfirst (List.takeWhile_subset _ hmem)
      have hhead := hfree first List.mem_cons_self
      rw [allocateAmong]
      cases hb : free first with
      | true =>
          obtain ⟨e, hentry, hage⟩ := isFree_iff.1 (hhead.trans hb)
          rw [List.find?_cons_of_pos hb, List.takeWhile_cons_of_neg (by simp [hb]), hentry]
          simp only [hage, if_true, entries_modifyEntry]
          by_cases hindex : first = index
          · subst hindex
            simp [hentry, grant]
          · have hid : grant p.config tag outcome (some first) [] index = id :=
              funext (grant_of_not_mem (by simpa using hindex) List.not_mem_nil)
            rw [if_neg hindex, hid, Option.map_id]
            rfl
      | false =>
          rw [List.find?_cons_of_neg (by simp [hb]), List.takeWhile_cons_of_pos (by simp [hb])]
          -- the entry is passed over and not visited again, so it changes no other's turn
          have htail : ∀ index ∈ rest, first ≠ index :=
            fun index hindex heq => hfirst (heq ▸ hindex)
          split
          · next hnone =>
              rw [ih hrest fun index hindex => hfree index (List.mem_cons_of_mem _ hindex)]
              by_cases hindex : first = index
              · rw [← hindex, hnone, Option.map_none, Option.map_none]
              · rw [grant_cons_of_ne hindex]
          · next e hentry =>
              have hage : e.age.value ≠ 0 := fun hage => Bool.false_ne_true
                ((hb.symm.trans hhead.symm).trans (isFree_iff.2 ⟨e, hentry, hage⟩))
              rw [if_neg hage, ih hrest fun index hindex => ?_]
              · rw [entries_modifyEntry]
                by_cases hindex : first = index
                · subst hindex
                  simp [hentry, grant, hrecipient, hpassed]
                · rw [if_neg hindex, grant_cons_of_ne hindex]
                  rfl
              · rw [isFree_modifyEntry_of_ne (htail index hindex)]
                exact hfree index (List.mem_cons_of_mem _ hindex)

end Among

/-! ## The order of a scan -/

section Order

variable (c : Config) (set way : Nat)

/-- The index of the entry that a scan visits after `i` others. -/
def visit (i : Nat) : Nat :=
  set * c.ways + (way + i) % c.ways

theorem scan_eq (p : LoopPredictor) :
    p.scan set way = (List.range p.config.ways).map (visit p.config set way) :=
  rfl

variable {c set way}

theorem visit_mem {i : Nat} (hi : i < c.ways) :
    visit c set way i ∈ List.range' (set * c.ways) c.ways :=
  List.mem_range'_1.2 ⟨Nat.le_add_right _ _,
    Nat.add_lt_add_left (Nat.mod_lt _ (Nat.zero_lt_of_lt hi)) _⟩

/-- A scan goes around once. -/
theorem visit_inj {i j : Nat} (hi : i < c.ways) (hj : j < c.ways)
    (heq : visit c set way i = visit c set way j) : i = j := by
  have hmod : Nat.ModEq c.ways (way + i) (way + j) := Nat.add_left_cancel heq
  exact (Nat.ModEq.add_left_cancel' way hmod).eq_of_lt_of_lt hi hj

theorem exists_visit_eq {index : Nat} (hindex : index ∈ List.range' (set * c.ways) c.ways) :
    ∃ i < c.ways, visit c set way i = index := by
  obtain ⟨k, hk, rfl⟩ := List.mem_range'.1 hindex
  have hways : 0 < c.ways := Nat.zero_lt_of_lt hk
  have hle := (Nat.mod_lt way hways).le
  -- from the start on to the end of the set, and then `k` further
  refine ⟨(k + (c.ways - way % c.ways)) % c.ways, Nat.mod_lt _ hways, ?_⟩
  have haround : way + (k + (c.ways - way % c.ways)) = k + c.ways * (way / c.ways + 1) := by
    have := Nat.div_add_mod way c.ways
    rw [Nat.mul_add, Nat.mul_one]
    omega
  rw [visit, Nat.add_mod_mod, haround, Nat.add_mul_mod_self_left, Nat.mod_eq_of_lt hk, Nat.one_mul]

theorem nodup_scan (p : LoopPredictor) (set way : Nat) : (p.scan set way).Nodup := by
  rw [scan_eq]
  refine List.Nodup.map_on (fun i hi j hj heq => ?_) List.nodup_range
  exact visit_inj (List.mem_range.1 hi) (List.mem_range.1 hj) heq

theorem mem_waysOf_of_mem_scan {p : LoopPredictor} {index : Nat}
    (hindex : index ∈ p.scan set way) : index ∈ p.waysOf set := by
  obtain ⟨i, hi, rfl⟩ := List.mem_map.1 hindex
  exact visit_mem (List.mem_range.1 hi)

/-- What a scan finds is the first free entry that it visits. -/
theorem find?_scan_eq_some_iff {p : LoopPredictor} {i : Nat} (hi : i < p.config.ways) :
    (p.scan set way).find? p.isFree = some (visit p.config set way i) ↔
      p.isFree (visit p.config set way i) = true ∧
        ∀ j < i, p.isFree (visit p.config set way j) = false := by
  rw [scan_eq, List.find?_map, Option.map_eq_some_iff]
  constructor
  · rintro ⟨k, hfound, heq⟩
    obtain ⟨hfree, hk, hbefore⟩ := List.find?_range_eq_some.1 hfound
    obtain rfl := visit_inj (List.mem_range.1 hk) hi heq
    exact ⟨hfree, fun j hj => by simpa using hbefore j hj⟩
  · rintro ⟨hfree, hbefore⟩
    refine ⟨i, List.find?_range_eq_some.2 ⟨hfree, List.mem_range.2 hi, fun j hj => ?_⟩, rfl⟩
    simpa using hbefore j hj

/-- What a scan passes over are the entries up to which none is free. -/
theorem visit_mem_takeWhile_iff {p : LoopPredictor} {i : Nat} (hi : i < p.config.ways) :
    visit p.config set way i ∈ (p.scan set way).takeWhile (fun index => !p.isFree index) ↔
      ∀ j ≤ i, p.isFree (visit p.config set way j) = false := by
  have hmem : visit p.config set way i ∈
      (p.scan set way).takeWhile (fun index => !p.isFree index) ↔
      i ∈ (List.range p.config.ways).takeWhile
        fun j => !p.isFree (visit p.config set way j) := by
    rw [scan_eq, List.takeWhile_map, List.mem_map]
    refine ⟨?_, fun hmem => ⟨i, hmem, rfl⟩⟩
    rintro ⟨k, hk, heq⟩
    have hrange := List.mem_range.1 (List.takeWhile_subset _ hk)
    exact visit_inj hrange hi heq ▸ hk
  rw [hmem, mem_takeWhile_not_iff List.pairwise_lt_range]
  constructor
  · rintro ⟨-, hbefore⟩ j hj
    by_contra hfree
    rw [Bool.not_eq_false] at hfree
    cases hfound : (List.range p.config.ways).find?
        fun j => p.isFree (visit p.config set way j) with
    | none =>
        exact List.find?_eq_none.1 hfound j (List.mem_range.2 (Nat.lt_of_le_of_lt hj hi)) hfree
    | some y =>
        obtain ⟨-, -, hnone⟩ := List.find?_range_eq_some.1 hfound
        have hlt := Nat.lt_of_le_of_lt hj (hbefore y hfound)
        simpa [hfree] using hnone j hlt
  · intro hnone
    refine ⟨List.mem_range.2 hi, fun y hfound => ?_⟩
    obtain ⟨hfree, -, -⟩ := List.find?_range_eq_some.1 hfound
    by_contra hle
    exact Bool.false_ne_true ((hnone y (Nat.not_lt.1 hle)).symm.trans hfree)

end Order

/-! ## Commits -/

theorem commit_of_miss (p : LoopPredictor) {lookup : Lookup} (hmiss : lookup.hit? = none)
    (outcome primary : Direction) (mispredicted mayAllocate : Bool) (way : Nat) :
    p.commit lookup outcome primary mispredicted mayAllocate way =
      if mispredicted && mayAllocate then
        allocateAmong lookup.tag outcome (p.scan lookup.set way) p
      else p := by
  simp [commit, hmiss]

section Entries

variable (p : LoopPredictor) (lookup : Lookup) (outcome primary : Direction)
  (mispredicted mayAllocate : Bool) (way index : Nat)

/-- What a commit makes of the entry of this index. -/
def commitEntry (e : Entry) : Entry :=
  if lookup.hit? = some index ∧ e.tag? = some lookup.tag then
    e.train p.config.iterationBits lookup outcome primary
  else if lookup.hit?.isNone && (mispredicted && mayAllocate) then
    grant p.config lookup.tag outcome ((p.scan lookup.set way).find? p.isFree)
      ((p.scan lookup.set way).takeWhile fun index => !p.isFree index) index e
  else e

theorem entries_commit :
    (p.commit lookup outcome primary mispredicted mayAllocate way).entries[index]? =
      (p.entries[index]?).map
        (p.commitEntry lookup outcome primary mispredicted mayAllocate way index) := by
  unfold commitEntry
  cases hhit : lookup.hit? with
  | none =>
      simp only [commit_of_miss p hhit, reduceCtorEq, false_and, if_false, Option.isNone_none,
        Bool.true_and]
      split
      · exact entries_allocateAmong (p.nodup_scan lookup.set way) (fun _ _ => rfl) index
      · exact Option.map_id_apply.symm
  | some found =>
      rw [commit_of_hit p hhit]
      cases hentry : p.entries[index]? with
      | none =>
          rw [p.entries_modifyHeld_of_not (by simp [holds, hentry]), hentry]
          rfl
      | some e =>
          rw [Option.map_some]
          split
          · next hheld => exact p.entries_modifyHeld (hhit.trans hheld.1) hentry hheld.2 _
          · next hnot =>
              rw [p.entries_modifyHeld_of_not (by simpa [hhit, holds, hentry] using hnot), hentry]
              rfl

variable {p lookup}

theorem commitEntry_of_miss (hmiss : lookup.hit? = none) :
    p.commitEntry lookup outcome primary true true way index =
      grant p.config lookup.tag outcome ((p.scan lookup.set way).find? p.isFree)
        ((p.scan lookup.set way).takeWhile fun index => !p.isFree index) index := by
  funext e
  simp [commitEntry, hmiss]

end Entries

/-- A scan that finds an entry makes a new one of it. -/
theorem entries_commit_of_find? {p : LoopPredictor} {lookup : Lookup}
    (hmiss : lookup.hit? = none) {way index : Nat}
    (hfound : (p.scan lookup.set way).find? p.isFree = some index) (outcome primary : Direction) :
    (p.commit lookup outcome primary true true way).entries[index]? =
      some (.allocated p.config lookup.tag outcome) := by
  obtain ⟨e, hentry, -⟩ := isFree_iff.1 (List.find?_some hfound)
  rw [entries_commit, commitEntry_of_miss _ _ _ _ hmiss, hentry, Option.map_some, grant,
    if_pos hfound]

theorem entries_commit_of_not_mem {p : LoopPredictor} {lookup : Lookup}
    (hwithin : lookup.Within p.config) {index : Nat} (hindex : index ∉ p.waysOf lookup.set)
    (outcome primary : Direction) (mispredicted mayAllocate : Bool) (way : Nat) :
    (p.commit lookup outcome primary mispredicted mayAllocate way).entries[index]? =
      p.entries[index]? := by
  have hid : p.commitEntry lookup outcome primary mispredicted mayAllocate way index = id := by
    funext e
    have hscan : index ∉ p.scan lookup.set way := fun hscan => hindex (mem_waysOf_of_mem_scan hscan)
    rw [commitEntry, if_neg fun hheld => hindex (hwithin index hheld.1),
      grant_of_not_mem (fun hfound => hscan (List.mem_of_find?_eq_some hfound))
        fun hpassed => hscan (List.takeWhile_subset _ hpassed)]
    exact ite_self e
  rw [entries_commit, hid, Option.map_id]
  rfl

section Recipient

variable {p : LoopPredictor} {lookup : Lookup} {outcome primary : Direction}
  {mispredicted mayAllocate : Bool} {way index : Nat}

/-- The commit gives the entry of this index to its branch. -/
def givesAway (p : LoopPredictor) (lookup : Lookup) (mispredicted mayAllocate : Bool)
    (way index : Nat) : Bool :=
  lookup.hit?.isNone && (mispredicted && mayAllocate) &&
    (p.scan lookup.set way).find? p.isFree = some index

theorem givesAway_iff :
    p.givesAway lookup mispredicted mayAllocate way index = true ↔
      lookup.hit? = none ∧ mispredicted = true ∧ mayAllocate = true ∧
        (p.scan lookup.set way).find? p.isFree = some index := by
  simp only [givesAway, Bool.and_eq_true, Option.isNone_iff_eq_none, decide_eq_true_eq, and_assoc]

/-- An entry that is not given away is trained, if the lookup found it and it still carries the tag,
and else keeps all but its age. -/
theorem commitEntry_of_not_givesAway (outcome primary : Direction)
    (hgives : p.givesAway lookup mispredicted mayAllocate way index = false) (e : Entry) :
    if lookup.hit? = some index ∧ e.tag? = some lookup.tag then
      p.commitEntry lookup outcome primary mispredicted mayAllocate way index e =
        e.train p.config.iterationBits lookup outcome primary
    else ∃ age, p.commitEntry lookup outcome primary mispredicted mayAllocate way index e =
      { e with age } := by
  unfold commitEntry
  split
  · rfl
  · split
    · next hseeks =>
        have hrecipient : (p.scan lookup.set way).find? p.isFree ≠ some index := by
          simpa [givesAway, hseeks] using hgives
        rw [grant, if_neg hrecipient]
        split
        · exact ⟨_, rfl⟩
        · exact ⟨e.age, rfl⟩
    · exact ⟨e.age, rfl⟩

/-- A commit changes the tag of the entry that it gives away, and of no other. -/
theorem recipient_of_tag_ne
    (hchanged : ((p.commit lookup outcome primary mispredicted mayAllocate way).entries[index]?).map
      (·.tag?) ≠ (p.entries[index]?).map (·.tag?)) :
    lookup.hit? = none ∧ mispredicted = true ∧ mayAllocate = true ∧
      (p.scan lookup.set way).find? p.isFree = some index := by
  rw [← givesAway_iff, ← Bool.not_eq_false]
  intro hgives
  refine hchanged ?_
  rw [entries_commit, Option.map_map]
  refine congrArg (fun tag => (p.entries[index]?).map tag) (funext fun e => ?_)
  have hchange := commitEntry_of_not_givesAway outcome primary hgives e
  rw [Function.comp_apply]
  split at hchange
  · rw [hchange, Entry.tag?_train]
  · obtain ⟨age, hchange⟩ := hchange
    rw [hchange]

end Recipient

/-! ## Calls -/

/-- A call that may change a loop predictor. -/
inductive Call where
  | speculate (lookup : Lookup) (outcome : Direction)
  | restore (lookup : Lookup)
  | commit (lookup : Lookup) (outcome primary : Direction) (mispredicted mayAllocate : Bool)
      (way : Nat)
  | trainTrust (pc : UInt64) (isCorrect : Bool)
  | reset

namespace Call

def run (p : LoopPredictor) : Call → LoopPredictor
  | speculate lookup outcome => p.speculate lookup outcome
  | restore lookup => p.restore lookup
  | commit lookup outcome primary mispredicted mayAllocate way =>
    p.commit lookup outcome primary mispredicted mayAllocate way
  | trainTrust pc isCorrect => p.trainTrust pc isCorrect
  | reset => p.reset

def lookup? : Call → Option Lookup
  | speculate lookup _ | restore lookup | commit lookup .. => some lookup
  | trainTrust .. | reset => none

theorem config_run (p : LoopPredictor) (call : Call) : (call.run p).config = p.config := by
  cases call with
  | speculate lookup outcome => exact p.config_modifyHeld lookup _
  | restore lookup => exact p.config_modifyHeld lookup _
  | commit lookup outcome primary mispredicted mayAllocate way =>
      exact congrArg Prod.fst (p.frame_commit lookup outcome primary mispredicted mayAllocate way)
  | trainTrust pc isCorrect => rfl
  | reset => rfl

/-- The call is no reset, and the lookup that it was given, if any, was answered at some time for a
branch of another set than that of `pc`. -/
def Elsewhere (c : Config) (pc : UInt64) (call : Call) : Prop :=
  call ≠ .reset ∧ ∀ lookup, call.lookup? = some lookup →
    ∃ (q : LoopPredictor) (other : UInt64),
      q.config = c ∧ q.setOf other ≠ q.setOf pc ∧ lookup = q.lookup other

/-- A call for a branch of another set changes no entry of this one. -/
theorem entries_run_of_elsewhere {p : LoopPredictor} {pc : UInt64} {call : Call}
    (helsewhere : call.Elsewhere p.config pc) {index : Nat}
    (hindex : index ∈ p.waysOf (p.setOf pc)) :
    (call.run p).entries[index]? = p.entries[index]? := by
  obtain ⟨hreset, hanswered⟩ := helsewhere
  have houtside : ∀ lookup, call.lookup? = some lookup →
      lookup.Within p.config ∧ index ∉ p.waysOf lookup.set := by
    intro lookup hlookup
    obtain ⟨q, other, hconfig, hne, rfl⟩ := hanswered lookup hlookup
    refine ⟨hconfig ▸ q.within_lookup other, not_mem_waysOf_of_ne ?_ hindex⟩
    rw [set_lookup, ← setOf_congr hconfig pc]
    exact hne
  have hheld : ∀ lookup, call.lookup? = some lookup → ∀ f : Entry → Entry,
      (p.modifyHeld lookup f).entries[index]? = p.entries[index]? := by
    intro lookup hlookup f
    obtain ⟨hwithin, hother⟩ := houtside lookup hlookup
    exact p.entries_modifyHeld_of_ne (fun hhit => hother (hwithin index hhit)) f
  cases call with
  | speculate lookup outcome => exact hheld lookup rfl _
  | restore lookup => exact hheld lookup rfl _
  | commit lookup outcome primary mispredicted mayAllocate way =>
      obtain ⟨hwithin, hother⟩ := houtside lookup rfl
      exact entries_commit_of_not_mem hwithin hother outcome primary mispredicted mayAllocate way
  | trainTrust pc isCorrect => rfl
  | reset => exact absurd rfl hreset

end Call

end LoopPredictor

end BranchPrediction
