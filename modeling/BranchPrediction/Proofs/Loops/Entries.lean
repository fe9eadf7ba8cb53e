import BranchPrediction.Proofs.Learning.Loops
import Mathlib.Data.List.Find

/-!
# The entries of a loop predictor, and the one that a lookup finds

A lookup finds the first way of its set that carries its tag (`hit?_lookup`), and reads everything
else off that entry (`lookup_of_hit`).  A call that is given the lookup of a branch changes the
entry that it found, if it still carries the tag (`entries_modifyHeld`), and no other.
-/

namespace BranchPrediction

namespace LoopPredictor

/-! ## Lookups -/

theorem holds_eq_true_iff (p : LoopPredictor) (tag index : Nat) :
    p.holds tag index = true ↔ ∃ e, p.entries[index]? = some e ∧ e.tag? = some tag := by
  unfold holds
  cases p.entries[index]? with
  | none => simp
  | some e => simp

theorem tag?_of_blank {c : Config} {index : Nat} {e : Entry}
    (hentry : (blank c).entries[index]? = some e) : e.tag? = none := by
  rw [(Array.mem_replicate.1 (Array.mem_of_getElem? hentry)).2]
  rfl

theorem setOf_congr {p q : LoopPredictor} (hconfig : q.config = p.config) (pc : UInt64) :
    q.setOf pc = p.setOf pc := by
  rw [setOf, hconfig, setOf]

theorem tagOf_congr {p q : LoopPredictor} (hconfig : q.config = p.config) (pc : UInt64) :
    q.tagOf pc = p.tagOf pc := by
  rw [tagOf, hconfig, tagOf]

theorem waysOf_congr {p q : LoopPredictor} (hconfig : q.config = p.config) (set : Nat) :
    q.waysOf set = p.waysOf set := by
  rw [waysOf, hconfig, waysOf]

@[simp]
theorem set_lookup (p : LoopPredictor) (pc : UInt64) : (p.lookup pc).set = p.setOf pc := by
  unfold lookup
  simp only
  split
  · rfl
  · rfl

@[simp]
theorem tag_lookup (p : LoopPredictor) (pc : UInt64) : (p.lookup pc).tag = p.tagOf pc := by
  unfold lookup
  simp only
  split
  · rfl
  · rfl

/-- A lookup finds the first way of the set that carries the tag. -/
theorem hit?_lookup (p : LoopPredictor) (pc : UInt64) :
    (p.lookup pc).hit? = (p.waysOf (p.setOf pc)).find? (p.holds (p.tagOf pc)) := by
  cases hfound : (p.waysOf (p.setOf pc)).find? (p.holds (p.tagOf pc)) with
  | none => simp [lookup, hfound]
  | some index =>
      obtain ⟨e, hentry, -⟩ := (p.holds_eq_true_iff _ _).1 (List.find?_some hfound)
      simp [lookup, hfound, hentry]

/-- What a lookup answers for the entry that it finds. -/
theorem lookup_of_hit {p : LoopPredictor} {pc : UInt64} {index : Nat}
    (hhit : (p.lookup pc).hit? = some index) :
    ∃ e, p.entries[index]? = some e ∧ e.tag? = some (p.tagOf pc) ∧
      p.lookup pc =
        { hit? := some index, tag := p.tagOf pc, set := p.setOf pc, isValid := e.isValid
          prediction := e.prediction, savedIteration := e.specIteration } := by
  have hfound := (p.hit?_lookup pc).symm.trans hhit
  obtain ⟨e, hentry, htag⟩ := (p.holds_eq_true_iff _ _).1 (List.find?_some hfound)
  refine ⟨e, hentry, htag, ?_⟩
  simp [lookup, hfound, hentry]

theorem lookup_of_miss {p : LoopPredictor} {pc : UInt64} (hmiss : (p.lookup pc).hit? = none) :
    p.lookup pc = { tag := p.tagOf pc, set := p.setOf pc } := by
  have hnone := (p.hit?_lookup pc).symm.trans hmiss
  simp [lookup, hnone]

theorem mem_waysOf_of_hit {p : LoopPredictor} {pc : UInt64} {index : Nat}
    (hhit : (p.lookup pc).hit? = some index) : index ∈ p.waysOf (p.setOf pc) :=
  List.mem_of_find?_eq_some ((p.hit?_lookup pc).symm.trans hhit)

theorem holds_congr {p q : LoopPredictor} {index : Nat}
    (htags : (q.entries[index]?).map (·.tag?) = (p.entries[index]?).map (·.tag?)) (tag : Nat) :
    q.holds tag index = p.holds tag index := by
  unfold holds
  cases hq : q.entries[index]? with
  | none =>
      cases hp : p.entries[index]? with
      | none => rfl
      | some e => simp [hq, hp] at htags
  | some e' =>
      cases hp : p.entries[index]? with
      | none => simp [hq, hp] at htags
      | some e =>
          rw [hq, hp, Option.map_some, Option.map_some, Option.some_inj] at htags
          simp only [htags]

/-- A set whose ways carry the same tags answers the same hit. -/
theorem hit?_lookup_congr {p q : LoopPredictor} {pc : UInt64} (hconfig : q.config = p.config)
    (htags : ∀ index ∈ p.waysOf (p.setOf pc),
      (q.entries[index]?).map (·.tag?) = (p.entries[index]?).map (·.tag?)) :
    (q.lookup pc).hit? = (p.lookup pc).hit? := by
  rw [hit?_lookup, hit?_lookup, setOf_congr hconfig, tagOf_congr hconfig, waysOf_congr hconfig]
  exact List.find?_congr fun index hindex => holds_congr (htags index hindex) _

/-- The lookup found an entry of its own set. -/
def Lookup.Within (c : Config) (lookup : Lookup) : Prop :=
  ∀ index, lookup.hit? = some index → index ∈ List.range' (lookup.set * c.ways) c.ways

theorem within_lookup (p : LoopPredictor) (pc : UInt64) : (p.lookup pc).Within p.config := by
  intro index hindex
  rw [set_lookup]
  exact mem_waysOf_of_hit hindex

theorem div_ways_of_mem {p : LoopPredictor} {set index : Nat} (hindex : index ∈ p.waysOf set) :
    index / p.config.ways = set := by
  obtain ⟨i, hi, rfl⟩ := List.mem_range'.1 hindex
  rw [Nat.one_mul, Nat.mul_comm, Nat.mul_add_div (by omega), Nat.div_eq_of_lt hi, Nat.add_zero]

/-- Different sets have no way in common. -/
theorem not_mem_waysOf_of_ne {p : LoopPredictor} {set other index : Nat} (hne : other ≠ set)
    (hindex : index ∈ p.waysOf set) : index ∉ p.waysOf other :=
  fun hother => hne ((div_ways_of_mem hother).symm.trans (div_ways_of_mem hindex))

/-! ## Changing the entry that a lookup found -/

theorem entries_modifyEntry (p : LoopPredictor) (index other : Nat) (f : Entry → Entry) :
    (p.modifyEntry index f).entries[other]? =
      if index = other then (p.entries[other]?).map f else p.entries[other]? :=
  Array.getElem?_modify

theorem config_modifyHeld (p : LoopPredictor) (lookup : Lookup) (f : Entry → Entry) :
    (p.modifyHeld lookup f).config = p.config :=
  congrArg Prod.fst (p.frame_modifyHeld lookup f)

theorem entries_modifyHeld_of_not (p : LoopPredictor) {lookup : Lookup} {index : Nat}
    (hnot : ¬ (lookup.hit? = some index ∧ p.holds lookup.tag index = true)) (f : Entry → Entry) :
    (p.modifyHeld lookup f).entries[index]? = p.entries[index]? := by
  unfold modifyHeld
  split
  · next found hfound =>
      split
      · next hholds =>
          have hne : found ≠ index := fun heq => hnot (heq ▸ ⟨hfound, hholds⟩)
          rw [entries_modifyEntry, if_neg hne]
      · rfl
  · rfl

theorem entries_modifyHeld_of_ne (p : LoopPredictor) {lookup : Lookup} {index : Nat}
    (hne : lookup.hit? ≠ some index) (f : Entry → Entry) :
    (p.modifyHeld lookup f).entries[index]? = p.entries[index]? :=
  p.entries_modifyHeld_of_not (fun hheld => hne hheld.1) f

/-- The entry that the lookup found is changed if it still carries the tag. -/
theorem entries_modifyHeld (p : LoopPredictor) {lookup : Lookup} {index : Nat}
    (hhit : lookup.hit? = some index) {e : Entry} (hentry : p.entries[index]? = some e)
    (htag : e.tag? = some lookup.tag) (f : Entry → Entry) :
    (p.modifyHeld lookup f).entries[index]? = some (f e) := by
  have hholds : p.holds lookup.tag index = true := (p.holds_eq_true_iff _ _).2 ⟨e, hentry, htag⟩
  simp only [modifyHeld, hhit, hholds, if_true, entries_modifyEntry, hentry, Option.map_some]

theorem tags_modifyHeld (p : LoopPredictor) (lookup : Lookup) {f : Entry → Entry}
    (hf : ∀ e, (f e).tag? = e.tag?) (index : Nat) :
    ((p.modifyHeld lookup f).entries[index]?).map (·.tag?) =
      (p.entries[index]?).map (·.tag?) := by
  unfold modifyHeld
  split
  · split
    · rw [entries_modifyEntry]
      split
      · simp [Function.comp_def, hf]
      · rfl
    · rfl
  · rfl

@[simp]
theorem Entry.tag?_speculate (e : Entry) (bits : Nat) (outcome : Direction) :
    (e.speculate bits outcome).tag? = e.tag? :=
  rfl

/-- The part of an entry that no commit trains: its tag and its speculative count. -/
def Entry.untrained (e : Entry) : Option Nat × Nat :=
  (e.tag?, e.specIteration)

theorem Entry.untrained_exit (e : Entry) (outcome : Direction) :
    (e.exit outcome).untrained = e.untrained := by
  unfold Entry.exit
  simp only
  split
  · split
    · rfl
    · rfl
  · split
    · rfl
    · rfl

theorem Entry.untrained_advance (e : Entry) (bits : Nat) (outcome : Direction) :
    (e.advance bits outcome).untrained = e.untrained := by
  unfold Entry.advance
  by_cases hover : e.trip < (e.iteration + 1) % (1 <<< bits)
  · simp only [hover, if_true]
    split
    · exact Entry.untrained_exit _ outcome
    · rfl
  · simp only [hover, if_false]
    split
    · exact Entry.untrained_exit _ outcome
    · rfl

theorem Entry.untrained_train (e : Entry) (bits : Nat) (lookup : Lookup)
    (outcome primary : Direction) :
    (e.train bits lookup outcome primary).untrained = e.untrained := by
  unfold Entry.train
  split
  · rfl
  · simp only [Entry.untrained_advance]
    split
    · rfl
    · rfl

@[simp]
theorem Entry.tag?_train (e : Entry) (bits : Nat) (lookup : Lookup) (outcome primary : Direction) :
    (e.train bits lookup outcome primary).tag? = e.tag? :=
  congrArg Prod.fst (e.untrained_train bits lookup outcome primary)

@[simp]
theorem Entry.specIteration_train (e : Entry) (bits : Nat) (lookup : Lookup)
    (outcome primary : Direction) :
    (e.train bits lookup outcome primary).specIteration = e.specIteration :=
  congrArg Prod.snd (e.untrained_train bits lookup outcome primary)

theorem commit_of_hit (p : LoopPredictor) {lookup : Lookup} {index : Nat}
    (hhit : lookup.hit? = some index) (outcome primary : Direction)
    (mispredicted mayAllocate : Bool) (way : Nat) :
    p.commit lookup outcome primary mispredicted mayAllocate way =
      p.modifyHeld lookup (·.train p.config.iterationBits lookup outcome primary) := by
  simp [commit, hhit]

end LoopPredictor

end BranchPrediction
