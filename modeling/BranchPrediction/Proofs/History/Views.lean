import BranchPrediction.Proofs.History.Fold
import Mathlib.Data.List.Forall2

/-!
# Families of folds

Every history view of the predictors is a container of folded histories, and pushing or popping a
bit acts on each fold alike.  `FoldFamily` says so: it names the folds of a view, lets a function
act on all of them, and equates the steps of the view with the steps of its folds.  What holds of
one fold then holds of a whole predictor: `InStep` says that each fold of a view tracks the
register, and it is kept by pushes and pops.
-/

namespace BranchPrediction

/-- A history view that is a container of folds. -/
class FoldFamily (α : Type) [HistoryView α] where
  /-- The folds of a view. -/
  folds : α → List FoldedHistory
  /-- Change each fold of a view. -/
  mapFolds : (FoldedHistory → FoldedHistory) → α → α
  folds_mapFolds : ∀ g a, folds (mapFolds g a) = (folds a).map g
  mapFolds_mapFolds : ∀ g k a, mapFolds k (mapFolds g a) = mapFolds (k ∘ g) a
  mapFolds_eq_self : ∀ {g a}, (∀ f ∈ folds a, g f = f) → mapFolds g a = a
  pushed_eq : ∀ r a, HistoryView.pushed r a = mapFolds (FoldedHistory.pushed r) a
  popping_eq : ∀ r a, HistoryView.popping r a = mapFolds (FoldedHistory.popping r) a

export FoldFamily (folds mapFolds)

/-! ## Containers -/

instance : FoldFamily FoldedHistory where
  folds f := [f]
  mapFolds g f := g f
  folds_mapFolds _ _ := rfl
  mapFolds_mapFolds _ _ _ := rfl
  mapFolds_eq_self h := h _ (List.mem_singleton_self _)
  pushed_eq _ _ := rfl
  popping_eq _ _ := rfl

section Containers

variable {α β : Type} [HistoryView α] [HistoryView β] [FoldFamily α] [FoldFamily β]

instance : FoldFamily (Array α) where
  folds views := views.toList.flatMap folds
  mapFolds g views := views.map (mapFolds g)
  folds_mapFolds g views := by
    rw [Array.toList_map, List.flatMap_map, List.map_flatMap]
    congr 1
    funext a
    exact FoldFamily.folds_mapFolds g a
  mapFolds_mapFolds g k views := by
    rw [Array.map_map]
    congr 1
    funext a
    exact FoldFamily.mapFolds_mapFolds g k a
  mapFolds_eq_self {g views} h := by
    have hself : ∀ a ∈ views, mapFolds g a = a := by
      intro a ha
      apply FoldFamily.mapFolds_eq_self
      intro f hf
      exact h f (List.mem_flatMap.2 ⟨a, by simpa using ha, hf⟩)
    rw [Array.map_congr_left hself, Array.map_id']
  pushed_eq r views := by
    change views.map (HistoryView.pushed r) = _
    congr 1
    funext a
    exact FoldFamily.pushed_eq r a
  popping_eq r views := by
    change views.map (HistoryView.popping r) = _
    congr 1
    funext a
    exact FoldFamily.popping_eq r a

instance : FoldFamily (Option α) where
  folds view := view.elim [] folds
  mapFolds g view := view.map (mapFolds g)
  folds_mapFolds g view := by
    cases view with
    | none => rfl
    | some a => exact FoldFamily.folds_mapFolds g a
  mapFolds_mapFolds g k view := by
    cases view with
    | none => rfl
    | some a => exact congrArg some (FoldFamily.mapFolds_mapFolds g k a)
  mapFolds_eq_self {g view} h := by
    cases view with
    | none => rfl
    | some a => exact congrArg some (FoldFamily.mapFolds_eq_self h)
  pushed_eq r view := by
    cases view with
    | none => rfl
    | some a => exact congrArg some (FoldFamily.pushed_eq r a)
  popping_eq r view := by
    cases view with
    | none => rfl
    | some a => exact congrArg some (FoldFamily.popping_eq r a)

instance : FoldFamily (α × β) where
  folds views := folds views.1 ++ folds views.2
  mapFolds g views := (mapFolds g views.1, mapFolds g views.2)
  folds_mapFolds g views := by
    rw [FoldFamily.folds_mapFolds, FoldFamily.folds_mapFolds, List.map_append]
  mapFolds_mapFolds g k views := by
    rw [FoldFamily.mapFolds_mapFolds, FoldFamily.mapFolds_mapFolds]
  mapFolds_eq_self {g views} h := by
    have hleft : mapFolds g views.1 = views.1 :=
      FoldFamily.mapFolds_eq_self fun f hf => h f (List.mem_append_left _ hf)
    have hright : mapFolds g views.2 = views.2 :=
      FoldFamily.mapFolds_eq_self fun f hf => h f (List.mem_append_right _ hf)
    rw [hleft, hright]
  pushed_eq r views := Prod.ext (FoldFamily.pushed_eq r views.1) (FoldFamily.pushed_eq r views.2)
  popping_eq r views :=
    Prod.ext (FoldFamily.popping_eq r views.1) (FoldFamily.popping_eq r views.2)

end Containers

/-- Folds of the given widths and windows, of an all-zero history. -/
def zeroFolds (shapes : List (Nat × Nat)) : Array FoldedHistory :=
  (shapes.map fun s => FoldedHistory.zero s.1 s.2).toArray

theorem folds_zeroFolds (shapes : List (Nat × Nat)) :
    folds (zeroFolds shapes) = shapes.map fun s => FoldedHistory.zero s.1 s.2 :=
  List.flatMap_singleton' _

/-! ## In step with a register -/

section InStep

variable {α : Type} [HistoryView α] [FoldFamily α]

/-- Each fold of a view tracks the register. -/
def InStep (r : HistoryRegister) (views : α) : Prop :=
  ∀ f ∈ folds views, f.Tracks r

theorem folds_pushed (r : HistoryRegister) (views : α) :
    folds (HistoryView.pushed r views) = (folds views).map (FoldedHistory.pushed r) := by
  rw [FoldFamily.pushed_eq, FoldFamily.folds_mapFolds]

theorem folds_popping (r : HistoryRegister) (views : α) :
    folds (HistoryView.popping r views) = (folds views).map (FoldedHistory.popping r) := by
  rw [FoldFamily.popping_eq, FoldFamily.folds_mapFolds]

/-- The width and the window of each fold of a view. -/
def foldShapes (views : α) : List (Nat × Nat) :=
  (folds views).map fun f => (f.width, f.window)

/-- A change of a fold that leaves its width and its window alone. -/
structure KeepsShape (g : FoldedHistory → FoldedHistory) : Prop where
  width_eq : ∀ f, (g f).width = f.width
  window_eq : ∀ f, (g f).window = f.window

theorem keepsShape_pushed (r : HistoryRegister) : KeepsShape (FoldedHistory.pushed r) :=
  ⟨FoldedHistory.width_pushed r, FoldedHistory.window_pushed r⟩

theorem keepsShape_popping (r : HistoryRegister) : KeepsShape (FoldedHistory.popping r) :=
  ⟨FoldedHistory.width_popping r, FoldedHistory.window_popping r⟩

theorem keepsShape_clear : KeepsShape FoldedHistory.clear :=
  ⟨fun _ => rfl, fun _ => rfl⟩

theorem KeepsShape.comp {g k : FoldedHistory → FoldedHistory} (hk : KeepsShape k)
    (hg : KeepsShape g) : KeepsShape (k ∘ g) :=
  ⟨fun f => (hk.width_eq (g f)).trans (hg.width_eq f),
    fun f => (hk.window_eq (g f)).trans (hg.window_eq f)⟩

theorem foldShapes_mapFolds {g : FoldedHistory → FoldedHistory} (hg : KeepsShape g) (views : α) :
    foldShapes (mapFolds g views) = foldShapes views := by
  rw [foldShapes, foldShapes, FoldFamily.folds_mapFolds, List.map_map]
  congr 1
  funext f
  exact Prod.ext (hg.width_eq f) (hg.window_eq f)

theorem InStep.isFoldOf {r : HistoryRegister} {views : α} (h : InStep r views) :
    List.Forall₂ (fun s f => FoldedHistory.IsFoldOf r s.1 s.2 f) (foldShapes views)
      (folds views) := by
  rw [foldShapes, List.forall₂_map_left_iff, List.forall₂_same]
  intro f hf
  exact (h f hf).isFoldOf

/-- Zero folds are in step with an empty register, if they are narrow and their windows short. -/
theorem inStep_of_zero {r : HistoryRegister} {views : α} {shapes : List (Nat × Nat)}
    (hr : ∀ age, r.bit age = false)
    (hviews : folds views = shapes.map fun s => FoldedHistory.zero s.1 s.2)
    (hshapes : ∀ s ∈ shapes, s.1 < 64 ∧ s.2 < r.size) : InStep r views := by
  intro f hf
  rw [hviews] at hf
  obtain ⟨s, hs, rfl⟩ := List.mem_map.1 hf
  obtain ⟨hwidth, hwindow⟩ := hshapes s hs
  exact FoldedHistory.zero_tracks hr hwidth hwindow

/-- Zero folds of the shapes of folds in step are in step with the register once it is cleared. -/
theorem InStep.zero {β : Type} [HistoryView β] [FoldFamily β] {r : HistoryRegister} {views : α}
    (h : InStep r views) {other : β}
    (hother : folds other = (foldShapes views).map fun s => FoldedHistory.zero s.1 s.2) :
    InStep r.clear other := by
  apply inStep_of_zero r.bit_clear hother
  intro s hs
  obtain ⟨f, hf, rfl⟩ := List.mem_map.1 hs
  rw [HistoryRegister.size_clear]
  exact ⟨(h f hf).width_lt, (h f hf).window_lt⟩

theorem inStep_prod {β : Type} [HistoryView β] [FoldFamily β] {r : HistoryRegister} {views : α}
    {other : β} : InStep r (views, other) ↔ InStep r views ∧ InStep r other := by
  constructor
  · intro h
    exact ⟨fun f hf => h f (List.mem_append_left _ hf),
      fun f hf => h f (List.mem_append_right _ hf)⟩
  · rintro ⟨hleft, hright⟩ f hf
    rcases List.mem_append.1 hf with hmem | hmem
    · exact hleft f hmem
    · exact hright f hmem

theorem inStep_none (r : HistoryRegister) : InStep r (none : Option α) := by
  intro f hf
  cases hf

theorem InStep.pushed {r : HistoryRegister} {views : α} (h : InStep r views) (b : Bool) :
    InStep (r.push b) (HistoryView.pushed (r.push b) views) := by
  intro f hf
  rw [folds_pushed] at hf
  obtain ⟨f, hmem, rfl⟩ := List.mem_map.1 hf
  exact FoldedHistory.pushed_tracks (h f hmem) b

theorem InStep.popping {r : HistoryRegister} {views : α} (h : InStep r views)
    (overwritten : Bool) :
    InStep (r.unpush overwritten) (HistoryView.popping r views) := by
  intro f hf
  rw [folds_popping] at hf
  obtain ⟨f, hmem, rfl⟩ := List.mem_map.1 hf
  exact FoldedHistory.popping_tracks (h f hmem) overwritten

theorem InStep.mapFolds_clear {r : HistoryRegister} {views : α} (h : InStep r views) :
    InStep r.clear (mapFolds FoldedHistory.clear views) := by
  intro f hf
  rw [FoldFamily.folds_mapFolds] at hf
  obtain ⟨f, hmem, rfl⟩ := List.mem_map.1 hf
  exact FoldedHistory.clear_tracks (h f hmem)

theorem InStep.popping_pushed {r : HistoryRegister} {views : α} (h : InStep r views)
    (s : HistoryRegister) : HistoryView.popping s (HistoryView.pushed s views) = views := by
  rw [FoldFamily.popping_eq, FoldFamily.pushed_eq, FoldFamily.mapFolds_mapFolds]
  apply FoldFamily.mapFolds_eq_self
  intro f hf
  exact FoldedHistory.popping_pushed (h f hf).width_lt (h f hf).fits s

end InStep

/-! ## Changes that leave the folds alone -/

section FoldBlind

variable {α β : Type} [HistoryView α] [HistoryView β] [FoldFamily α] [FoldFamily β]

/-- A change of a view that neither moves its folds nor depends on them. -/
structure FoldBlind (change : α → α) : Prop where
  folds_eq : ∀ a, folds (change a) = folds a
  mapFolds_eq : ∀ g a, change (mapFolds g a) = mapFolds g (change a)

namespace FoldBlind

theorem id : FoldBlind (fun a : α => a) :=
  ⟨fun _ => rfl, fun _ _ => rfl⟩

theorem comp {first second : α → α} (hfirst : FoldBlind first) (hsecond : FoldBlind second) :
    FoldBlind (fun a => second (first a)) where
  folds_eq a := by rw [hsecond.folds_eq, hfirst.folds_eq]
  mapFolds_eq g a := by rw [hfirst.mapFolds_eq, hsecond.mapFolds_eq]

theorem cond {test : α → Prop} [DecidablePred test] {yes no : α → α}
    (htest : ∀ g a, test (mapFolds g a) ↔ test a) (hyes : FoldBlind yes) (hno : FoldBlind no) :
    FoldBlind (fun a => if test a then yes a else no a) where
  folds_eq a := by
    split
    · exact hyes.folds_eq a
    · exact hno.folds_eq a
  mapFolds_eq g a := by
    simp only [htest]
    split
    · exact hyes.mapFolds_eq g a
    · exact hno.mapFolds_eq g a

theorem prod {left : α → α} {right : β → β} (hleft : FoldBlind left) (hright : FoldBlind right) :
    FoldBlind (Prod.map left right) where
  folds_eq views := congrArg₂ (· ++ ·) (hleft.folds_eq views.1) (hright.folds_eq views.2)
  mapFolds_eq g views :=
    Prod.ext (hleft.mapFolds_eq g views.1) (hright.mapFolds_eq g views.2)

theorem option {change : α → α} (h : FoldBlind change) : FoldBlind (Option.map change) where
  folds_eq view := by
    cases view with
    | none => rfl
    | some a => exact h.folds_eq a
  mapFolds_eq g view := by
    cases view with
    | none => rfl
    | some a => exact congrArg some (h.mapFolds_eq g a)

theorem map {change : α → α} (h : FoldBlind change) :
    FoldBlind (fun views : Array α => views.map change) where
  folds_eq views := by
    change (views.map change).toList.flatMap folds = views.toList.flatMap folds
    rw [Array.toList_map, List.flatMap_map]
    congr 1
    funext a
    exact h.folds_eq a
  mapFolds_eq g views := by
    change (views.map (mapFolds g)).map change = (views.map change).map (mapFolds g)
    rw [Array.map_map, Array.map_map]
    congr 1
    funext a
    exact h.mapFolds_eq g a

theorem modify {change : α → α} (h : FoldBlind change) (position : Nat) :
    FoldBlind (fun views : Array α => views.modify position change) where
  folds_eq views := by
    change (views.modify position change).toList.flatMap folds = views.toList.flatMap folds
    rw [Array.toList_modify]
    generalize views.toList = list
    induction list generalizing position with
    | nil => cases position <;> rfl
    | cons a rest ih =>
        cases position with
        | zero =>
            rw [List.modify_zero_cons, List.flatMap_cons, List.flatMap_cons, h.folds_eq]
        | succ position =>
            rw [List.modify_succ_cons, List.flatMap_cons, List.flatMap_cons, ih]
  mapFolds_eq g views := by
    change (views.map (mapFolds g)).modify position change =
      (views.modify position change).map (mapFolds g)
    apply Array.ext
    · simp
    · intro i hleft hright
      simp only [Array.getElem_modify, Array.getElem_map]
      split
      · exact h.mapFolds_eq g _
      · rfl

theorem inStep {change : α → α} (h : FoldBlind change) {r : HistoryRegister} {views : α}
    (hviews : InStep r views) : InStep r (change views) := by
  intro f hf
  rw [h.folds_eq] at hf
  exact hviews f hf

theorem foldShapes_eq {change : α → α} (h : FoldBlind change) (views : α) :
    foldShapes (change views) = foldShapes views := by
  rw [foldShapes, foldShapes, h.folds_eq]

end FoldBlind

end FoldBlind

end BranchPrediction
