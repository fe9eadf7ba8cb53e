import BranchPrediction.Ladder.Basic
import BranchPrediction.Proofs.History.Views

/-!
# Learning beside the folds: tagged tables and ladders

A ladder is a view of history, a row of tables with three folds each, and it is also what learns.
The two do not meet: training, allocation, aging and statistics are changes that neither move a
fold nor depend on one (`FoldBlind`).  It follows that learning keeps the folds in step, and that
it can be exchanged with the insertion of history.
-/

namespace BranchPrediction

/-- A function of the elements does not see a change of one of them that it does not see. -/
theorem map_modify_of_eq {α β : Type} {f : α → α} {g : α → β} (hf : ∀ x, g (f x) = g x)
    (xs : Array α) (index : Nat) : (xs.modify index f).map g = xs.map g := by
  apply Array.ext_getElem?
  intro i
  rw [Array.getElem?_map, Array.getElem?_map, Array.getElem?_modify]
  split
  · rw [Option.map_map]
    exact congrArg (Option.map · _) (funext hf)
  · rfl

variable {P : Type}

/-! ## Tables -/

namespace TaggedTable

instance : FoldFamily (TaggedTable P) where
  folds t := [t.indexFold, t.tagFold, t.narrowFold]
  mapFolds g t := t.mapFolds g
  folds_mapFolds _ _ := rfl
  mapFolds_mapFolds _ _ _ := rfl
  mapFolds_eq_self {g t} h := by
    rcases t with ⟨shape, bank, entries, indexFold, tagFold, narrowFold, entries_size⟩
    have hindex : g indexFold = indexFold := h indexFold (by simp)
    have htag : g tagFold = tagFold := h tagFold (by simp)
    have hnarrow : g narrowFold = narrowFold := h narrowFold (by simp)
    simp only [TaggedTable.mapFolds, hindex, htag, hnarrow]
  pushed_eq _ _ := rfl
  popping_eq _ _ := rfl

theorem foldBlind_modifyEntry (index : Nat) (f : TaggedEntry P → TaggedEntry P) :
    FoldBlind (fun t : TaggedTable P => t.modifyEntry index f) :=
  ⟨fun _ => rfl, fun _ _ => rfl⟩

theorem foldBlind_age : FoldBlind (TaggedTable.age (P := P)) :=
  ⟨fun _ => rfl, fun _ _ => rfl⟩

end TaggedTable

/-! ## Ladders -/

namespace Ladder

instance : FoldFamily (Ladder P) where
  folds l := folds l.tables
  mapFolds g l := ⟨l.config, mapFolds g l.tables, l.useAlt, l.stats⟩
  folds_mapFolds g l := FoldFamily.folds_mapFolds g l.tables
  mapFolds_mapFolds g k l := by rw [FoldFamily.mapFolds_mapFolds]
  mapFolds_eq_self {g l} h := by
    rcases l with ⟨config, tables, useAlt, stats⟩
    have hself : mapFolds g tables = tables := FoldFamily.mapFolds_eq_self h
    simp only [hself]
  pushed_eq r l := by
    rcases l with ⟨config, tables, useAlt, stats⟩
    simp only [HistoryView.pushed]
    exact congrArg (Ladder.mk config · useAlt stats) (FoldFamily.pushed_eq r tables)
  popping_eq r l := by
    rcases l with ⟨config, tables, useAlt, stats⟩
    simp only [HistoryView.popping]
    exact congrArg (Ladder.mk config · useAlt stats) (FoldFamily.popping_eq r tables)

/-- A change of the tables that is blind to their folds. -/
theorem foldBlind_tables {change : Array (TaggedTable P) → Array (TaggedTable P)}
    (h : FoldBlind change) :
    FoldBlind (fun l : Ladder P => ⟨l.config, change l.tables, l.useAlt, l.stats⟩) where
  folds_eq l := h.folds_eq l.tables
  mapFolds_eq g l := congrArg (Ladder.mk l.config · l.useAlt l.stats) (h.mapFolds_eq g l.tables)

/-! ### What can be read without the folds -/

@[simp]
theorem size_mapFolds (g : FoldedHistory → FoldedHistory) (l : Ladder P) :
    (mapFolds g l).size = l.size :=
  Array.size_map

@[simp]
theorem entry?_mapFolds (g : FoldedHistory → FoldedHistory) (l : Ladder P) (slots : Array Slot)
    (bank : Nat) : Ladder.entry? (mapFolds g l) slots bank = l.entry? slots bank := by
  have htable : (mapFolds g l).tables[bank]? = l.tables[bank]?.map (mapFolds g) :=
    Array.getElem?_map
  unfold entry?
  rw [htable]
  cases l.tables[bank]? with
  | none => rfl
  | some t =>
      cases slots[bank]? with
      | none => rfl
      | some slot => rfl

@[simp]
theorem useAltIndex_mapFolds (g : FoldedHistory → FoldedHistory) (l : Ladder P) (bank : Nat)
    (conditional : Bool) :
    (mapFolds g l).useAltIndex bank conditional = l.useAltIndex bank conditional := by
  unfold useAltIndex
  rw [size_mapFolds]
  rfl

@[simp]
theorem candidates_mapFolds (g : FoldedHistory → FoldedHistory) (l : Ladder P)
    (hit? : Option Nat) (skip : Bool) :
    (mapFolds g l).candidates hit? skip = l.candidates hit? skip := by
  unfold candidates
  rw [size_mapFolds]
  rfl

/-! ### Slots and matches -/

theorem fits_slots (l : Ladder P) (pc : UInt64) (path : PathHistory) :
    l.fits (l.slots pc path) = true := by
  simp [fits, slots, size]

theorem hasBank_findMatches [Payload P] (l : Ladder P) (slots : Array Slot) :
    l.hasBank (l.findMatches slots).1 = true ∧ l.hasBank (l.findMatches slots).2 = true := by
  have hbank : ∀ bank ∈ l.hits slots, bank < l.size := by
    intro bank hbank
    have := (List.mem_filter.1 hbank).1
    simpa using this
  unfold findMatches
  cases hhits : l.hits slots with
  | nil => exact ⟨rfl, rfl⟩
  | cons hit rest =>
      rw [hhits] at hbank
      have hhit : decide (hit < l.size) = true := by simpa using hbank hit (by simp)
      cases rest with
      | nil => exact ⟨hhit, rfl⟩
      | cons alt rest =>
          have halt : decide (alt < l.size) = true := by simpa using hbank alt (by simp)
          exact ⟨hhit, halt⟩

/-! ### Changes of single parts -/

theorem foldBlind_modifyStats (f : LadderStats → LadderStats) :
    FoldBlind (fun l : Ladder P => l.modifyStats f) :=
  ⟨fun _ => rfl, fun _ _ => rfl⟩

theorem foldBlind_modifyEntry (slots : Array Slot) (bank : Nat)
    (f : TaggedEntry P → TaggedEntry P) :
    FoldBlind (fun l : Ladder P => l.modifyEntry slots bank f) := by
  unfold modifyEntry
  cases slots[bank]? with
  | none => exact .id
  | some slot =>
      exact foldBlind_tables ((TaggedTable.foldBlind_modifyEntry slot.index f).modify bank)

theorem foldBlind_age : FoldBlind (Ladder.age (P := P)) :=
  foldBlind_tables TaggedTable.foldBlind_age.map

/-! ### Training -/

theorem foldBlind_trainUseAlt (bank : Nat) (conditional altCorrect : Bool) :
    FoldBlind (fun l : Ladder P => l.trainUseAlt bank conditional altCorrect) where
  folds_eq _ := rfl
  mapFolds_eq g l := by
    unfold trainUseAlt
    rw [useAltIndex_mapFolds]
    rfl

theorem foldBlind_trainUseful (slots : Array Slot) (bank : Nat) (useful : Bool) :
    FoldBlind (fun l : Ladder P => l.trainUseful slots bank useful) :=
  foldBlind_modifyEntry slots bank _

theorem foldBlind_record (source : ProviderSource) (hit? : Option Nat) (isCorrect : Bool) :
    FoldBlind (fun l : Ladder P => l.record source hit? isCorrect) :=
  foldBlind_modifyStats _

theorem foldBlind_tick : FoldBlind (Ladder.tick (P := P)) := by
  have hcount := foldBlind_modifyStats (P := P) fun s => { s with commits := s.commits + 1 }
  have hagings := foldBlind_modifyStats (P := P) fun s => { s with agings := s.agings + 1 }
  have hdue : FoldBlind fun l : Ladder P =>
      if l.stats.commits % l.config.usefulResetPeriod = 0 then
        l.age.modifyStats fun s => { s with agings := s.agings + 1 }
      else l :=
    .cond (fun _ _ => Iff.rfl) (foldBlind_age.comp hagings) .id
  exact hcount.comp hdue

/-! ### Allocation -/

/-- The scan of an allocation is blind to the folds, and so is its answer. -/
theorem allocateAmong_mapFolds (slots : Array Slot) (confidence : Int) (payload : P)
    (banks : List Nat) (g : FoldedHistory → FoldedHistory) (l : Ladder P) :
    folds (allocateAmong slots confidence payload banks l).1 = folds l ∧
      allocateAmong slots confidence payload banks (mapFolds g l) =
        (mapFolds g (allocateAmong slots confidence payload banks l).1,
          (allocateAmong slots confidence payload banks l).2) := by
  induction banks generalizing l with
  | nil => exact ⟨rfl, rfl⟩
  | cons bank rest ih =>
      simp only [allocateAmong, entry?_mapFolds]
      split
      · next e slot _ _ =>
          split
          · have hblind := foldBlind_modifyEntry (P := P) slots bank
              (·.allocate slot.tag confidence payload)
            exact ⟨hblind.folds_eq l, Prod.ext (hblind.mapFolds_eq g l) rfl⟩
          · have hblind := foldBlind_trainUseful (P := P) slots bank false
            obtain ⟨hfolds, hmap⟩ := ih (l.trainUseful slots bank false)
            rw [hblind.mapFolds_eq]
            exact ⟨hfolds.trans (hblind.folds_eq l), hmap⟩
      · exact ih l

theorem foldBlind_allocate (slots : Array Slot) (hit? : Option Nat) (skip : Bool) (payload : P)
    (confidence : Int) :
    FoldBlind (fun l : Ladder P => (l.allocate slots hit? skip payload confidence).1) := by
  have hblind : ∀ (g : FoldedHistory → FoldedHistory) (l : Ladder P),
      folds (l.allocate slots hit? skip payload confidence).1 = folds l ∧
        ((mapFolds g l).allocate slots hit? skip payload confidence).1 =
          mapFolds g (l.allocate slots hit? skip payload confidence).1 := by
    intro g l
    unfold allocate
    rw [candidates_mapFolds]
    cases l.candidates hit? skip with
    | nil => exact ⟨rfl, rfl⟩
    | cons bank rest =>
        obtain ⟨hfolds, hmap⟩ := allocateAmong_mapFolds slots confidence payload (bank :: rest) g l
        simp only [hmap]
        rcases hscan : allocateAmong slots confidence payload (bank :: rest) l with
          ⟨next, received?⟩
        rw [hscan] at hfolds
        cases received? with
        | none => exact ⟨hfolds, rfl⟩
        | some received => exact ⟨hfolds, rfl⟩
  exact ⟨fun l => (hblind (fun f => f) l).1, fun g l => (hblind g l).2⟩

/-! ### Sizes -/

theorem length_folds (l : Ladder P) : (folds l).length = 3 * l.size := by
  have hlength : ∀ tables : List (TaggedTable P),
      (tables.flatMap folds).length = 3 * tables.length := by
    intro tables
    induction tables with
    | nil => rfl
    | cons t tables ih =>
        have hfirst : (folds t).length = 3 := rfl
        rw [List.flatMap_cons, List.length_append, hfirst, ih, List.length_cons]
        omega
  exact hlength l.tables.toList

theorem size_of_foldBlind {change : Ladder P → Ladder P} (h : FoldBlind change) (l : Ladder P) :
    (change l).size = l.size := by
  have hlength := congrArg List.length (h.folds_eq l)
  rw [length_folds, length_folds] at hlength
  omega

/-! ### Blank and reset ladders -/

theorem folds_reset [Payload P] (l : Ladder P) :
    folds l.reset = (foldShapes l).map fun s => FoldedHistory.zero s.1 s.2 := by
  change (l.tables.map TaggedTable.reset).toList.flatMap folds =
    ((l.tables.toList.flatMap folds).map fun f => (f.width, f.window)).map fun s =>
      FoldedHistory.zero s.1 s.2
  rw [Array.toList_map, List.flatMap_map, List.map_map, List.map_flatMap]
  rfl

end Ladder

/-- Width and window of the index fold and of both tag folds of a table. -/
def TableShape.foldShapes (shape : TableShape) : List (Nat × Nat) :=
  [(shape.logSize, shape.historyLength), (shape.tagBits, shape.historyLength),
    (shape.tagBits - 1, shape.historyLength)]

namespace Ladder

def Config.foldShapes (c : Config) : List (Nat × Nat) :=
  c.tables.flatMap TableShape.foldShapes

theorem folds_blank [Payload P] (c : Config) :
    folds (blank c : Ladder P) = c.foldShapes.map fun s => .zero s.1 s.2 := by
  have htables : ∀ (shapes : List TableShape) (make : Nat → TableShape → TaggedTable P),
      (∀ bank shape, folds (make bank shape) =
        shape.foldShapes.map fun s => FoldedHistory.zero s.1 s.2) →
      (shapes.mapIdx make).flatMap folds =
        (shapes.flatMap TableShape.foldShapes).map fun s => FoldedHistory.zero s.1 s.2 := by
    intro shapes
    induction shapes with
    | nil =>
        intro make _
        rfl
    | cons shape shapes ih =>
        intro make hmake
        rw [List.mapIdx_cons, List.flatMap_cons, List.flatMap_cons, List.map_append, hmake,
          ih _ fun bank shape => hmake (bank + 1) shape]
  exact htables c.tables _ fun _ _ => rfl

theorem foldShapes_blank [Payload P] (c : Config) :
    BranchPrediction.foldShapes (blank c : Ladder P) = c.foldShapes := by
  rw [BranchPrediction.foldShapes, folds_blank, List.map_map]
  exact List.map_id _

end Ladder

end BranchPrediction
