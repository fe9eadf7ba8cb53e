import BranchPrediction.History.Speculative
import BranchPrediction.Proofs.History.Views

/-!
# Appending and rolling back

What `SpeculativeHistory.append` does to the register, to the views and to the checkpoint, and that
`SpeculativeHistory.rollback` of that checkpoint takes all of it back.  The saved word is the only
memory of the bits that a contribution overwrote: `unpushBits_pushBits` shows that its lowest
`count` bits, read from the last push back to the first, restore the register cell by cell, and
with it every fold.  `Checkpoint.eq_finish_iff` says what the check of the write position compares.
-/

namespace BranchPrediction

namespace SpeculativeHistory

variable {α : Type} [HistoryView α]

/-! ## Saved words -/

theorem bitOf_eq_wordBit (word : UInt64) {i : Nat} (h : i < 64) :
    bitOf word i = wordBit word i := by
  have hone : ∀ j, wordBit 1 j = decide (j = 0) := by
    intro j
    have htrue : (1 : UInt64) = true.toUInt64 := rfl
    rw [htrue, wordBit_toUInt64, Bool.true_and]
  have hbit : (word >>> UInt64.ofNat i) &&& 1 = (wordBit word i).toUInt64 := by
    apply eq_of_wordBit_eq
    intro j _
    rw [wordBit_and, wordBit_shiftRight _ h, hone, wordBit_toUInt64]
    by_cases hj : j = 0
    · simp [hj]
    · simp [hj]
  rw [bitOf, hbit]
  cases wordBit word i <;> rfl

theorem wordBit_wordOf (b : Bool) {i : Nat} (h : i < 64) (j : Nat) :
    wordBit (wordOf b i) j = (b && (i == j)) :=
  wordBit_toUInt64_shiftLeft b h j

/-! ## What the views cannot influence -/

/-- Register and saved bits of an insertion are the same whatever views are passed along. -/
theorem pushBits_congr {β : Type} [HistoryView β] (bits : UInt64) (count : Nat)
    (r : HistoryRegister) (views : α) (other : β) :
    (pushBits bits count r views).1 = (pushBits bits count r other).1 ∧
      (pushBits bits count r views).2.1 = (pushBits bits count r other).2.1 := by
  induction count with
  | zero => exact ⟨rfl, rfl⟩
  | succ count ih =>
      obtain ⟨hsaved, hregister⟩ := ih
      constructor
      · simp only [pushBits, hsaved, hregister]
      · simp only [pushBits, pushBit, hregister]

theorem unpushBits_congr {β : Type} [HistoryView β] (overwritten : UInt64) (count : Nat)
    (r : HistoryRegister) (views : α) (other : β) :
    (unpushBits overwritten count r views).1 = (unpushBits overwritten count r other).1 := by
  induction count generalizing r views other with
  | zero => rfl
  | succ count ih => exact ih _ _ _

/-! ## The register -/

theorem size_pushBits (bits : UInt64) (count : Nat) (r : HistoryRegister) (views : α) :
    (pushBits bits count r views).2.1.size = r.size := by
  induction count with
  | zero => rfl
  | succ count ih => simpa [pushBits, pushBit] using ih

/-- Each push moves the write position one cell back, around the circle. -/
theorem start_pushBits (bits : UInt64) (count : Nat) (r : HistoryRegister) (views : α) :
    ((pushBits bits count r views).2.1.start + count) % r.size = r.start := by
  induction count with
  | zero => exact Nat.mod_eq_of_lt r.start_lt
  | succ count ih =>
      have hsize := size_pushBits bits count r views
      have hpos := r.size_pos
      simp only [pushBits, pushBit, HistoryRegister.start_push, hsize]
      rw [Nat.mod_add_mod, show ∀ s, s + (r.size - 1) + (count + 1) = s + count + r.size by
        intro s; omega, Nat.add_mod_right, ih]

/-- The saved word holds no bits from the number of pushes on. -/
theorem wordBit_pushBits_of_ge (bits : UInt64) {count : Nat} (hcount : count ≤ 64)
    (r : HistoryRegister) (views : α) {i : Nat} (hi : count ≤ i) :
    wordBit (pushBits bits count r views).1 i = false := by
  induction count with
  | zero => exact wordBit_zero i
  | succ count ih =>
      have hne : (count == i) = false := by simpa using by omega
      simp only [pushBits]
      rw [wordBit_or, wordBit_wordOf _ (by omega), ih (by omega) (by omega), hne,
        Bool.and_false, Bool.or_false]

end SpeculativeHistory

/-- The expected write position is the one from which the inserted bits lead back to the position
before the update. -/
theorem Checkpoint.eq_finish_iff {c : Checkpoint} {size start : Nat} (hstart : start < size)
    (hc : c.start < size) : start = c.finish size ↔ (start + c.count) % size = c.start := by
  have hpos : 0 < size := by omega
  have hcount : c.count % size < size := Nat.mod_lt _ hpos
  rw [Checkpoint.finish, ← Nat.add_mod_mod start c.count size,
    HistoryRegister.mod_of_lt_two_mul (n := start + c.count % size) (by omega),
    HistoryRegister.mod_of_lt_two_mul (n := c.start + size - c.count % size) (by omega)]
  split <;> split <;> omega

namespace HistoryRegister

theorem bit_zeros (size : Nat) (h : 0 < size) (age : Nat) : (zeros size h).bit age = false := by
  simp [zeros, bit]

theorem size_zeros (size : Nat) (h : 0 < size) : (zeros size h).size = size := by
  simp [zeros, HistoryRegister.size]

end HistoryRegister

namespace SpeculativeHistory

theorem create_eq_ok {size pathBits longest : Nat} {h : SpeculativeHistory}
    (hcreate : create size pathBits longest = .ok h) :
    longest < size ∧ ∃ hsize : 0 < size,
      h = ⟨.zeros size hsize, .empty pathBits, longest, 0⟩ := by
  unfold create at hcreate
  by_cases hlongest : longest < size
  · have hsize : 0 < size := by omega
    refine ⟨hlongest, hsize, ?_⟩
    by_cases hpath : PathHistory.supports pathBits = true
    · simp [hlongest, hpath, HistoryRegister.zeros?, hsize, pure, Except.pure] at hcreate
      exact hcreate.symm
    · simp [hlongest, hpath, HistoryRegister.zeros?, hsize, bind, Except.bind, throw, throwThe,
        MonadExceptOf.throw] at hcreate
  · simp [hlongest, bind, Except.bind, throw, throwThe, MonadExceptOf.throw] at hcreate

theorem disorder?_append {α : Type} [HistoryView α] (h : SpeculativeHistory) (bits : UInt64)
    (count : Nat) (pc : UInt64) (views : α) :
    (h.append bits count pc views).2.1.disorder? (h.append bits count pc views).1 = none := by
  have hsize := size_pushBits bits count h.register views
  have hlt := (pushBits bits count h.register views).2.1.start_lt
  change (pushBits bits count h.register views).2.1.start < HistoryRegister.size _ at hlt
  rw [hsize] at hlt
  apply if_pos
  change (pushBits bits count h.register views).2.1.start =
    Checkpoint.finish _ (pushBits bits count h.register views).2.1.size
  rw [hsize, Checkpoint.eq_finish_iff hlt h.register.start_lt]
  exact start_pushBits bits count h.register views

theorem count_le_of_appendError? {h : SpeculativeHistory} {count : Nat}
    (hroom : h.appendError? count = none) : count ≤ 64 := by
  by_contra hmore
  simp [appendError?, show 64 < count by omega] at hroom

theorem lt_of_appendError? {h : SpeculativeHistory} {count : Nat}
    (hroom : h.appendError? count = none) : h.inFlight + count + h.longest < h.register.size := by
  have hcount := count_le_of_appendError? hroom
  by_contra hover
  simp [appendError?, overflow?, show ¬64 < count by omega,
    show h.register.size ≤ h.inFlight + count + h.longest by omega] at hroom

/-- An append and the retirement of an older contribution can be exchanged. -/
theorem retire_append {α : Type} [HistoryView α] (h : SpeculativeHistory) (bits : UInt64)
    (count : Nat) (pc : UInt64) (views : α) {c : Checkpoint} (hc : c.count ≤ h.inFlight) :
    (h.retire c).append bits count pc views =
      ((h.append bits count pc views).1, (h.append bits count pc views).2.1.retire c,
        (h.append bits count pc views).2.2) := by
  rcases h with ⟨register, path, longest, inFlight⟩
  have hcount : inFlight - c.count + count = inFlight + count - c.count := by
    have : c.count ≤ inFlight := hc
    omega
  simp only [append, retire, hcount]

section Undo

variable {α : Type} [HistoryView α] [FoldFamily α]

/-! ## The views -/

/-- An insertion acts on the views fold by fold. -/
theorem pushBits_views (bits : UInt64) (count : Nat) (r : HistoryRegister) (views : α) :
    (pushBits bits count r views).2.2 =
      mapFolds (fun f => (pushBits bits count r f).2.2) views := by
  induction count with
  | zero => exact (FoldFamily.mapFolds_eq_self fun _ _ => rfl).symm
  | succ count ih =>
      have hregister : ∀ f : FoldedHistory,
          (pushBits bits count r f).2.1 = (pushBits bits count r views).2.1 := by
        intro f
        exact (pushBits_congr bits count r f views).2
      simp only [pushBits, pushBit, hregister]
      rw [FoldFamily.pushed_eq, ih, FoldFamily.mapFolds_mapFolds]
      rfl

theorem keepsShape_pushBits (bits : UInt64) (count : Nat) (r : HistoryRegister) :
    KeepsShape fun f => (pushBits bits count r f).2.2 := by
  induction count with
  | zero => exact ⟨fun _ => rfl, fun _ => rfl⟩
  | succ count ih =>
      constructor
      · intro f
        simp only [pushBits, pushBit]
        exact ((keepsShape_pushed _).width_eq _).trans (ih.width_eq f)
      · intro f
        simp only [pushBits, pushBit]
        exact ((keepsShape_pushed _).window_eq _).trans (ih.window_eq f)

/-- Removing bits changes nothing of the views but the values of their folds. -/
theorem exists_unpushBits_views (overwritten : UInt64) (count : Nat) (r : HistoryRegister)
    (views : α) :
    ∃ g, KeepsShape g ∧ (unpushBits overwritten count r views).2 = mapFolds g views := by
  induction count generalizing r views with
  | zero =>
      exact ⟨fun f => f, ⟨fun _ => rfl, fun _ => rfl⟩,
        (FoldFamily.mapFolds_eq_self fun _ _ => rfl).symm⟩
  | succ count ih =>
      obtain ⟨g, hg, hviews⟩ :=
        ih (r.unpush (bitOf overwritten count)) (HistoryView.popping r views)
      refine ⟨g ∘ FoldedHistory.popping r, hg.comp (keepsShape_popping r), ?_⟩
      rw [← FoldFamily.mapFolds_mapFolds, ← FoldFamily.popping_eq]
      exact hviews

theorem inStep_pushBits (bits : UInt64) (count : Nat) {r : HistoryRegister} {views : α}
    (h : InStep r views) :
    InStep (pushBits bits count r views).2.1 (pushBits bits count r views).2.2 := by
  induction count with
  | zero => exact h
  | succ count ih => exact ih.pushed _

theorem inStep_unpushBits (overwritten : UInt64) (count : Nat) {r : HistoryRegister} {views : α}
    (h : InStep r views) :
    InStep (unpushBits overwritten count r views).1
      (unpushBits overwritten count r views).2 := by
  induction count generalizing r views with
  | zero => exact h
  | succ count ih => exact ih (h.popping _)

/-- Unpushing with the saved bits takes the pushes back, register and views alike. -/
theorem unpushBits_pushBits (bits : UInt64) {count : Nat} (hcount : count ≤ 64)
    {r : HistoryRegister} {views : α} (h : InStep r views) {word : UInt64}
    (hword : ∀ i, i < count → wordBit word i = wordBit (pushBits bits count r views).1 i) :
    unpushBits word count (pushBits bits count r views).2.1
      (pushBits bits count r views).2.2 = (r, views) := by
  induction count generalizing word with
  | zero => rfl
  | succ count ih =>
      have hbefore := inStep_pushBits bits count h
      have hempty := wordBit_pushBits_of_ge bits (by omega) r views (Nat.le_refl count)
      -- the bit saved last is the one that the last push overwrote
      have hlast : bitOf word count = (pushBits bits count r views).2.1.oldest := by
        rw [bitOf_eq_wordBit word (by omega), hword count (by omega)]
        simp only [pushBits]
        rw [wordBit_or, wordBit_wordOf _ (by omega), hempty]
        simp
      have hrest : ∀ i, i < count → wordBit word i =
          wordBit (pushBits bits count r views).1 i := by
        intro i hi
        have hne : (count == i) = false := by simpa using by omega
        rw [hword i (by omega)]
        simp only [pushBits]
        rw [wordBit_or, wordBit_wordOf _ (by omega), hne, Bool.and_false, Bool.or_false]
      simp only [unpushBits, unpushBit, pushBits, pushBit]
      rw [hlast, HistoryRegister.unpush_push, hbefore.popping_pushed]
      exact ih (by omega) hrest

/-! ## Contributions -/

/-- An append keeps every fold in step, whatever it inserts. -/
theorem inStep_append {h : SpeculativeHistory} {views : α} (hviews : InStep h.register views)
    (bits : UInt64) (count : Nat) (pc : UInt64) :
    InStep (h.append bits count pc views).2.1.register (h.append bits count pc views).2.2 :=
  inStep_pushBits bits count hviews

/-- A rollback keeps every fold in step, whatever checkpoint it is given. -/
theorem inStep_rollback {h : SpeculativeHistory} {views : α} (hviews : InStep h.register views)
    (c : Checkpoint) :
    InStep (h.rollback c views).1.register (h.rollback c views).2 :=
  inStep_unpushBits c.overwritten c.count hviews

/-- An append changes nothing of the views but the values of their folds. -/
theorem exists_append_views (h : SpeculativeHistory) (bits : UInt64) (count : Nat) (pc : UInt64)
    (views : α) :
    ∃ g, KeepsShape g ∧ (h.append bits count pc views).2.2 = mapFolds g views :=
  ⟨_, keepsShape_pushBits bits count h.register, pushBits_views bits count h.register views⟩

theorem exists_rollback_views (h : SpeculativeHistory) (c : Checkpoint) (views : α) :
    ∃ g, KeepsShape g ∧ (h.rollback c views).2 = mapFolds g views :=
  exists_unpushBits_views c.overwritten c.count h.register views

/-- An append does not depend on what is learned beside the folds, and leaves it alone. -/
theorem append_change (h : SpeculativeHistory) (bits : UInt64) (count : Nat) (pc : UInt64)
    {change : α → α} (hchange : FoldBlind change) (views : α) :
    h.append bits count pc (change views) =
      ((h.append bits count pc views).1, (h.append bits count pc views).2.1,
        change (h.append bits count pc views).2.2) := by
  have hviews : (pushBits bits count h.register (change views)).2.2 =
      change (pushBits bits count h.register views).2.2 := by
    rw [pushBits_views, pushBits_views, hchange.mapFolds_eq]
  obtain ⟨hsaved, hregister⟩ := pushBits_congr bits count h.register (change views) views
  rcases h with ⟨register, path, longest, inFlight⟩
  simp only [append]
  simp only [hsaved, hregister, hviews]

/-- Rolling back what was just appended restores the history and every fold. -/
theorem rollback_append {h : SpeculativeHistory} {views : α} (hviews : InStep h.register views)
    (bits : UInt64) {count : Nat} (hcount : count ≤ 64) (pc : UInt64) :
    (h.append bits count pc views).2.1.rollback (h.append bits count pc views).1
      (h.append bits count pc views).2.2 = (h, views) := by
  have hsaved : ∀ i, i < count → wordBit (pushBits bits count h.register views).1 i =
      wordBit (pushBits bits count h.register views).1 i := fun _ _ => rfl
  have hundo := unpushBits_pushBits bits hcount hviews hsaved
  rcases h with ⟨register, path, longest, inFlight⟩
  simp only [append, rollback]
  simp only [hundo, Nat.add_sub_cancel]

end Undo

end SpeculativeHistory

end BranchPrediction
