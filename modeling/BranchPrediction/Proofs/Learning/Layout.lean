import BranchPrediction.Proofs.Learning.Readings

/-!
# The layout of a ladder

The hashes of a table depend on its shape and on its position among its sister tables, beside the
folds.  `Ladder.layout` lists the two for every table.  A ladder is built with the layout of its
configuration (`layout_blank`), and no operation changes it: neither what a commit learns
(`layout_commit`, `layout_learn`) nor a change of the folds nor a reset.
-/

namespace BranchPrediction

variable {P : Type}

namespace TaggedTable

def place (t : TaggedTable P) : TableShape × Nat :=
  (t.shape, t.bank)

theorem place_modifyEntry (t : TaggedTable P) (index : Nat)
    (f : TaggedEntry P → TaggedEntry P) : (t.modifyEntry index f).place = t.place :=
  rfl

theorem place_age (t : TaggedTable P) : t.age.place = t.place :=
  rfl

theorem place_mapFolds (t : TaggedTable P) (g : FoldedHistory → FoldedHistory) :
    (t.mapFolds g).place = t.place :=
  rfl

theorem place_reset [Payload P] (t : TaggedTable P) : t.reset.place = t.place :=
  rfl

end TaggedTable

namespace Ladder

def layout (l : Ladder P) : List (TableShape × Nat) :=
  l.tables.toList.map TaggedTable.place

def Config.layout (c : Config) : List (TableShape × Nat) :=
  c.tables.zipIdx

theorem exists_table_of_layout {c : Config} {l : Ladder P} (h : l.layout = c.layout) {i : Nat}
    {shape : TableShape} (hshape : c.tables[i]? = some shape) :
    ∃ t, l.tables[i]? = some t ∧ t.place = (shape, i) := by
  have hplace := congrArg (·[i]?) h
  simp only [layout, Config.layout, List.getElem?_map, List.getElem?_zipIdx, hshape,
    Option.map_some, Nat.zero_add, Option.map_eq_some_iff] at hplace
  obtain ⟨t, ht, hplace⟩ := hplace
  exact ⟨t, by simpa using ht, hplace⟩

/-! ## Changes of single parts -/

theorem map_place_map {change : TaggedTable P → TaggedTable P}
    (hchange : ∀ t, (change t).place = t.place) (tables : Array (TaggedTable P)) :
    (tables.map change).toList.map TaggedTable.place = tables.toList.map TaggedTable.place := by
  rw [Array.toList_map, List.map_map]
  exact List.map_congr_left fun t _ => hchange t

theorem map_place_modify {change : TaggedTable P → TaggedTable P}
    (hchange : ∀ t, (change t).place = t.place) (tables : Array (TaggedTable P)) (bank : Nat) :
    (tables.modify bank change).toList.map TaggedTable.place =
      tables.toList.map TaggedTable.place := by
  rw [← Array.toList_map, ← Array.toList_map, map_modify_of_eq hchange]

@[simp]
theorem layout_modifyStats (l : Ladder P) (f : LadderStats → LadderStats) :
    (l.modifyStats f).layout = l.layout :=
  rfl

theorem layout_modifyEntry (l : Ladder P) (slots : Array Slot) (bank : Nat)
    (f : TaggedEntry P → TaggedEntry P) : (l.modifyEntry slots bank f).layout = l.layout := by
  unfold modifyEntry
  split
  · rfl
  · next slot _ =>
      exact map_place_modify (fun t => t.place_modifyEntry slot.index f) l.tables bank

theorem steady_layout : Steady (layout (P := P)) where
  modifyEntry := layout_modifyEntry
  trainUseAlt _ _ _ _ := rfl
  modifyStats l _ _ := l.layout_modifyStats _

@[simp]
theorem layout_age (l : Ladder P) : l.age.layout = l.layout :=
  map_place_map TaggedTable.place_age l.tables

@[simp]
theorem layout_tick (l : Ladder P) : l.tick.layout = l.layout := by
  simp only [tick]
  split
  · rw [layout_modifyStats, layout_age, layout_modifyStats]
  · rw [layout_modifyStats]

@[simp]
theorem layout_mapFolds (g : FoldedHistory → FoldedHistory) (l : Ladder P) :
    Ladder.layout (mapFolds g l) = l.layout :=
  map_place_map (fun t => t.place_mapFolds g) l.tables

@[simp]
theorem layout_reset [Payload P] (l : Ladder P) : l.reset.layout = l.layout :=
  map_place_map TaggedTable.place_reset l.tables

/-! ## New ladders -/

theorem layout_blank [Payload P] (c : Config) : (blank c : Ladder P).layout = c.layout := by
  rw [layout, Config.layout]
  apply List.ext_getElem
  · simp [blank]
  · intro i hleft hright
    simp [blank, TaggedTable.place, TaggedTable.blank]

end Ladder

/-! ## Commits -/

/-- What TAGE learns does not change where its tables stand. -/
theorem Tage.layout_commit (t : Tage) (p : Prediction) (outcome finalOutcome : Direction)
    (skip : Bool) : (t.commit p outcome finalOutcome skip).ladder.layout = t.ladder.layout := by
  obtain ⟨trained, hcommit, hlayout⟩ :=
    exists_trained_commit Ladder.steady_layout t p outcome finalOutcome skip
  rw [hcommit, Ladder.layout_tick, hlayout]
  exact t.ladder.layout_modifyStats _

theorem Ittage.layout_learn (r : Record) (target : UInt64) (ladder : Ladder Target) :
    (learn r target ladder).layout = ladder.layout := by
  obtain ⟨trained, hlearn, hlayout⟩ :=
    exists_trained_learn Ladder.steady_layout target ladder r
  rw [hlearn, Ladder.layout_tick, hlayout]
  exact ladder.layout_modifyStats _

end BranchPrediction
