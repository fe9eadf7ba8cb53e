import BranchPrediction.Proofs.Pipeline.Capacity
import Mathlib.Data.Nat.ModEq

/-!
# Bits out of order

The only thing that is checked before a contribution is undone is the write position of the history
register, which is a position on a circle.  As long as what was undone so far was always the
youngest contribution (`Ledger.Orderly`), the check is exact: a contribution is refused if and only
if there is a bit above it (`refused_iff_of_orderly`).  What carries this is that the bits above a
record in use never go around the whole circle, since they are all in flight.

A call that is refused with another error may have undone a contribution all the same.  It has to
be in order too (`misleadingRun_not_detectsDisorder`).
-/

namespace BranchPrediction

open SteppedPredictor HistoryKeeper SpeculativeHistory

/-! ## The order of a ledger -/

namespace Ledger

/-- The contributions that are older than the one of a handle. -/
def below (L : Ledger) (h : Nat) : Ledger :=
  (L.dropWhile (·.fate ≠ .live h)).tail

/-- What has become of the youngest contribution. -/
def youngest? (L : Ledger) : Option Fate :=
  L.head?.map (·.fate)

/-- A call that keeps to the order of the contributions: if it is accepted, what it undoes is the
youngest one, and what it commits has been inserted before and has none below it that is in use. -/
def Orderly (accepted : Option PredictorError → Bool) (inUse : Nat → Bool)
    (error? : Option PredictorError) (L : Ledger) : Call → Prop
  | .predict _ _ _ | .placeholder _ _ _ => True
  | .update h _ | .repair h _ | .squash h =>
    L.holds h = true → accepted error? = true → L.youngest? = some (.live h)
  | .commit h _ =>
    inUse h = true → L.holds h = true ∧ ∀ e ∈ L.below h, e.fate.isLive = false
  | .reset => False

instance (accepted : Option PredictorError → Bool) (inUse : Nat → Bool)
    (error? : Option PredictorError) (L : Ledger) :
    (call : Call) → Decidable (L.Orderly accepted inUse error? call)
  | .predict _ _ _ | .placeholder _ _ _ => inferInstanceAs (Decidable True)
  | .update _ _ | .repair _ _ | .squash _ => inferInstanceAs (Decidable (_ → _ → _))
  | .commit _ _ => inferInstanceAs (Decidable (_ → _ ∧ _))
  | .reset => inferInstanceAs (Decidable False)

/-- Nothing has retired above a contribution that is in use. -/
def RetiredBelow (L : Ledger) : Prop :=
  L.Pairwise fun e older => e.fate = .retired → older.fate.isLive = false

variable {L : Ledger} {e : Outstanding} {h k : Nat} {fate : Fate}

theorem above_cons (e : Outstanding) (L : Ledger) (h : Nat) :
    above (e :: L) h = if e.fate = .live h then 0 else e.width + L.above h := by
  by_cases hlive : e.fate = .live h
  · simp [above, hlive]
  · simp [above, hlive]

theorem below_cons (e : Outstanding) (L : Ledger) (h : Nat) :
    below (e :: L) h = if e.fate = .live h then L else L.below h := by
  by_cases hlive : e.fate = .live h
  · simp [below, hlive]
  · simp [below, hlive]

theorem holds_cons (e : Outstanding) (L : Ledger) (h : Nat) :
    holds (e :: L) h = (decide (e.fate = .live h) || L.holds h) :=
  rfl

theorem holds_of_mem (hmem : e ∈ L) (hlive : e.fate = .live h) : L.holds h = true :=
  List.any_eq_true.2 ⟨e, hmem, by simpa using hlive⟩

theorem ne_of_holds_eq_false (hfree : L.holds h = false) (hmem : e ∈ L) : e.fate ≠ .live h := by
  intro hlive
  rw [holds_of_mem hmem hlive] at hfree
  cases hfree

theorem strike_of_holds_eq_false (hfree : L.holds h = false) : L.strike h = L :=
  List.filter_eq_self.2 fun _ hmem => by simpa using ne_of_holds_eq_false hfree hmem

theorem turn_of_holds_eq_false (hfree : L.holds h = false) (fate : Fate) : L.turn h fate = L := by
  refine (List.map_congr_left fun e hmem => ?_).trans L.map_id
  exact if_neg (ne_of_holds_eq_false hfree hmem)

theorem isLive_of_mem_turn (hfate : fate.isLive = false) (hdead : ∀ e ∈ L, e.fate.isLive = false)
    (hmem : e ∈ L.turn h fate) : e.fate.isLive = false := by
  obtain ⟨before, hbefore, rfl⟩ := List.mem_map.1 hmem
  by_cases hturned : before.fate = .live h
  · rwa [if_pos hturned]
  · rw [if_neg hturned]
    exact hdead before hbefore

theorem above_turn (hfate : ∀ k, fate ≠ .live k) (hk : k ≠ h) :
    (L.turn h fate).above k = L.above k := by
  induction L with
  | nil => rfl
  | cons e L ih =>
      rw [turn_cons, above_cons, above_cons, ih]
      by_cases hturned : e.fate = .live h
      · have hne : Fate.live h ≠ .live k := fun heq => hk (Fate.live.inj heq).symm
        rw [if_pos hturned, if_neg (hfate k), hturned, if_neg hne]
      · rw [if_neg hturned]

/-- With nothing retired above it, what is above a contribution in use is in flight. -/
theorem RetiredBelow.above_le (hretired : L.RetiredBelow) (hholds : L.holds h = true) :
    L.above h ≤ L.speculative := by
  induction L with
  | nil => cases hholds
  | cons e L ih =>
      obtain ⟨hfirst, hrest⟩ := List.pairwise_cons.1 hretired
      rw [above_cons, speculative_cons]
      by_cases hlive : e.fate = .live h
      · rw [if_pos hlive]
        exact Nat.zero_le _
      · have hholds : holds L h = true := by simpa [holds_cons, hlive] using hholds
        obtain ⟨older, hmem, hlive'⟩ := List.any_eq_true.1 hholds
        have hnot : e.fate ≠ .retired := by
          intro heq
          have hdead := hfirst older hmem heq
          rw [of_decide_eq_true hlive'] at hdead
          cases hdead
        have hle := ih hrest hholds
        rw [if_neg hlive, if_neg hnot]
        omega

theorem RetiredBelow.strike (hretired : L.RetiredBelow) (h : Nat) : (L.strike h).RetiredBelow :=
  List.Pairwise.filter _ hretired

theorem RetiredBelow.insert (hretired : L.RetiredBelow) (h width : Nat) :
    RetiredBelow (⟨.live h, width⟩ :: L) := by
  refine List.pairwise_cons.2 ⟨?_, hretired⟩
  intro _ _ heq
  cases heq

theorem RetiredBelow.lose (hretired : L.RetiredBelow) (h : Nat) :
    (L.turn h .lost).RetiredBelow := by
  induction L with
  | nil => exact List.Pairwise.nil
  | cons e L ih =>
      obtain ⟨hfirst, hrest⟩ := List.pairwise_cons.1 hretired
      rw [turn_cons]
      refine List.pairwise_cons.2 ⟨?_, ih hrest⟩
      intro older hmem heq
      by_cases hturned : e.fate = .live h
      · rw [if_pos hturned] at heq
        cases heq
      · rw [if_neg hturned] at heq
        exact isLive_of_mem_turn rfl (fun older hmem => hfirst older hmem heq) hmem

/-- A contribution may retire when none below it is in use. -/
theorem RetiredBelow.retire (hretired : L.RetiredBelow)
    (hbelow : ∀ e ∈ L.below h, e.fate.isLive = false) : (L.turn h .retired).RetiredBelow := by
  induction L with
  | nil => exact List.Pairwise.nil
  | cons e L ih =>
      obtain ⟨hfirst, hrest⟩ := List.pairwise_cons.1 hretired
      rw [below_cons] at hbelow
      rw [turn_cons]
      by_cases hturned : e.fate = .live h
      · rw [if_pos hturned] at hbelow ⊢
        have hfree : holds L h = false := by
          rw [holds, List.any_eq_false]
          intro older hmem hlive
          have hdead := hbelow older hmem
          rw [of_decide_eq_true hlive] at hdead
          cases hdead
        rw [turn_of_holds_eq_false hfree]
        exact List.pairwise_cons.2 ⟨fun older hmem _ => hbelow older hmem, hrest⟩
      · rw [if_neg hturned] at hbelow ⊢
        refine List.pairwise_cons.2 ⟨?_, ih hrest hbelow⟩
        intro older hmem heq
        exact isLive_of_mem_turn rfl (fun older hmem => hfirst older hmem heq) hmem

theorem above_strike (hyoungest : L.youngest? = some (.live h)) {width : Nat}
    (hwidth : L.widthsOf h = [width]) (hk : k ≠ h) :
    width + (L.strike h).above k = L.above k := by
  cases L with
  | nil => cases hwidth
  | cons e L =>
      have hlive : e.fate = .live h := Option.some.inj hyoungest
      have hne : Fate.live h ≠ .live k := fun heq => hk (Fate.live.inj heq).symm
      rw [widthsOf_cons, if_pos hlive] at hwidth
      obtain ⟨rfl, hnone⟩ := List.cons.inj hwidth
      have hfree : holds L h = false := by
        rw [holds_eq, hnone]
        rfl
      rw [strike_cons, if_pos hlive, strike_of_holds_eq_false hfree, above_cons, hlive, if_neg hne]

end Ledger

/-! ## Write positions -/

/-- Positions on a circle from which the same step leads to the same place are the same, and so are
the distances from there, within one turn, that lead to the same place. -/
theorem eq_of_mod_add_eq {size a b x y : Nat} (step : Nat) (hx : x < size) (hy : y < size)
    (hstep : (a + step) % size = (b + step) % size) (hend : (a + x) % size = (b + y) % size) :
    x = y := by
  have hsame : Nat.ModEq size a b := Nat.ModEq.add_right_cancel' step hstep
  have hboth : Nat.ModEq size (a + x) (a + y) :=
    Nat.ModEq.trans hend (hsame.symm.add_right y)
  exact (Nat.ModEq.add_left_cancel' a hboth).eq_of_lt_of_lt hx hy

namespace SpeculativeHistory

def position (h : SpeculativeHistory) : Nat :=
  h.register.start

theorem start_unpushBits {α : Type} [HistoryView α] (overwritten : UInt64) (count : Nat)
    (r : HistoryRegister) (views : α) :
    (unpushBits overwritten count r views).1.start = (r.start + count) % r.size := by
  induction count generalizing r views with
  | zero => exact (Nat.mod_eq_of_lt r.start_lt).symm
  | succ count ih =>
      have hstart : ∀ b, (r.unpush b).start = (r.start + 1) % r.size := by
        intro b
        simp [HistoryRegister.unpush, HistoryRegister.size]
      simp only [unpushBits, unpushBit]
      rw [ih, HistoryRegister.size_unpush, hstart, Nat.mod_add_mod, Nat.add_assoc,
        Nat.add_comm 1 count]

theorem position_insert (h : SpeculativeHistory) (bits : UInt64 × Nat) (pc : UInt64) :
    ((h.insert bits pc).2.position + bits.2) % h.register.size = h.position :=
  start_pushBits bits.1 bits.2 h.register noViews

theorem position_undone (h : SpeculativeHistory) (c : Checkpoint) :
    (h.undone (some c)).position = (h.position + c.count) % h.register.size :=
  start_unpushBits c.overwritten c.count h.register noViews

/-- A contribution is refused exactly when the write position is not where it left it. -/
theorem disordered?_eq_none_iff {h : SpeculativeHistory} {c : Checkpoint}
    (hc : c.start < h.register.size) :
    h.disordered? (some c) = none ↔ (h.position + c.count) % h.register.size = c.start := by
  refine Iff.trans ?_ (Checkpoint.eq_finish_iff h.register.start_lt hc)
  change h.disorder? c = none ↔ _
  simp [disorder?, position]

end SpeculativeHistory

/-! ## Timelines in order -/

namespace Timeline

variable {size longest : Nat} {t : Timeline} {L : Ledger} {h : Nat} {c : Checkpoint}
  {bits : Branch → UInt64 × Nat}

/-- The balance, and the contributions lie on top of one another from the write position on. -/
structure Stacked (size longest : Nat) (t : Timeline) (L : Ledger) : Prop
    extends t.Balanced size longest L where
  start_eq : ∀ {h : Nat} {c : Checkpoint}, t.applied? h = some c →
    (t.history.position + (L.above h + c.count)) % size = c.start
  retiredBelow : L.RetiredBelow

theorem Stacked.size_eq (hstacked : t.Stacked size longest L) : t.history.register.size = size :=
  congrArg Prod.fst hstacked.dimensions_eq

theorem Stacked.widthsOf_eq (hstacked : t.Stacked size longest L) (hc : t.applied? h = some c) :
    L.widthsOf h = [c.count] := by
  rw [hstacked.widths_eq, hc]
  rfl

/-- The bits above a contribution do not go around the circle. -/
theorem Stacked.above_lt (hstacked : t.Stacked size longest L) (hholds : L.holds h = true) :
    L.above h < size := by
  have hle := hstacked.retiredBelow.above_le hholds
  have hroom := hstacked.room
  omega

/-- A contribution is refused exactly when there is a bit above it. -/
theorem Stacked.disordered?_isSome_iff (hstacked : t.Stacked size longest L)
    (hc : t.applied? h = some c) :
    (t.history.disordered? (t.applied? h)).isSome = true ↔ 0 < L.above h := by
  have hsize := hstacked.size_eq
  have hstart := hstacked.start_eq hc
  have hholds : L.holds h = true := by
    rw [hstacked.holds_eq, hc]
    rfl
  have habove := hstacked.above_lt hholds
  have hlt : c.start < t.history.register.size := by
    rw [hsize, ← hstart]
    exact Nat.mod_lt _ (by omega)
  have hiff := disordered?_eq_none_iff hlt
  rw [hc, ← Option.ne_none_iff_isSome, ne_eq, hiff, hsize, ← hstart, Nat.pos_iff_ne_zero,
    not_iff_not, Nat.add_comm (L.above h), ← Nat.add_assoc]
  constructor
  · intro heq
    -- The check only sees positions; less than one turn above, they tell how many bits there are.
    have hmod : (t.history.position + c.count + 0) % size =
        (t.history.position + c.count + L.above h) % size := heq
    exact (eq_of_mod_add_eq 0 (by omega) habove rfl hmod).symm
  · intro heq
    rw [heq, Nat.add_zero]

/-- A timeline is stacked with a new contribution for one handle, or none, if the others lie as
they did. -/
theorem Stacked.put (hstacked : t.Stacked size longest L) {history : SpeculativeHistory}
    {r? : Option (Option Checkpoint)} {L' : Ledger}
    (hbalanced : Balanced size longest ⟨history, Session.put t.records h r?⟩ L')
    (hself : ∀ c, r?.join = some c → (history.position + (L'.above h + c.count)) % size = c.start)
    (hothers : ∀ k, k ≠ h → ∀ n, (history.position + (L'.above k + n)) % size =
      (t.history.position + (L.above k + n)) % size)
    (hretired : L'.RetiredBelow) :
    Stacked size longest ⟨history, Session.put t.records h r?⟩ L' := by
  refine ⟨hbalanced, ?_, hretired⟩
  intro k c hc
  rw [applied?_put] at hc
  by_cases hk : k = h
  · rw [if_pos hk] at hc
    rw [hk]
    exact hself c hc
  · rw [if_neg hk] at hc
    exact (hothers k hk c.count).trans (hstacked.start_eq hc)

theorem Stacked.lose (hstacked : t.Stacked size longest L) {r? : Option (Option Checkpoint)}
    (hr : r?.join = none) :
    Stacked size longest ⟨t.history, Session.put t.records h r?⟩ (L.turn h .lost) := by
  refine hstacked.put (hstacked.toBalanced.lose hr) ?_ ?_ (hstacked.retiredBelow.lose h)
  · intro c hc
    rw [hr] at hc
    cases hc
  · intro k hk n
    rw [Ledger.above_turn (by simp) hk]

theorem Stacked.position_undone (hstacked : t.Stacked size longest L)
    (hyoungest : L.holds h = true → L.youngest? = some (.live h)) {k : Nat} (hk : k ≠ h) (n : Nat) :
    ((t.history.undone (t.applied? h)).position + ((L.strike h).above k + n)) % size =
      (t.history.position + (L.above k + n)) % size := by
  have hholds := hstacked.holds_eq h
  cases hc : t.applied? h with
  | none =>
      rw [hc] at hholds
      rw [Ledger.strike_of_holds_eq_false hholds]
      rfl
  | some c =>
      rw [hc] at hholds
      have habove := Ledger.above_strike (hyoungest hholds) (hstacked.widthsOf_eq hc) hk
      rw [SpeculativeHistory.position_undone, hstacked.size_eq, Nat.mod_add_mod, ← habove]
      congr 1
      omega

/-- The youngest contribution was undone, or there was none, and the record has none or is gone. -/
theorem Stacked.strike (hstacked : t.Stacked size longest L)
    (hyoungest : L.holds h = true → L.youngest? = some (.live h))
    {r? : Option (Option Checkpoint)} (hr : r?.join = none) :
    Stacked size longest
      ⟨t.history.undone (t.applied? h), Session.put t.records h r?⟩ (L.strike h) := by
  refine hstacked.put (hstacked.toBalanced.strike hr) ?_ ?_ (hstacked.retiredBelow.strike h)
  · intro c hc
    rw [hr] at hc
    cases hc
  · intro k hk n
    exact hstacked.position_undone hyoungest hk n

theorem Stacked.insert (hstacked : t.Stacked size longest L)
    (hyoungest : L.holds h = true → L.youngest? = some (.live h)) {bits : UInt64 × Nat}
    (pc : UInt64) (hbits : bits.2 ≤ 64)
    (hroom : (t.history.undone (t.applied? h)).appendError? bits.2 = none) :
    Stacked size longest
      ⟨((t.history.undone (t.applied? h)).insert bits pc).2, Session.put t.records h
        (some (some ((t.history.undone (t.applied? h)).insert bits pc).1))⟩
      (⟨.live h, bits.2⟩ :: L.strike h) := by
  have hmove := position_insert (t.history.undone (t.applied? h)) bits pc
  have hsize : (t.history.undone (t.applied? h)).register.size = size :=
    congrArg Prod.fst ((dimensions_undone _ _).trans hstacked.dimensions_eq)
  rw [hsize] at hmove
  refine hstacked.put (hstacked.toBalanced.insert pc hbits hroom) ?_ ?_
    ((hstacked.retiredBelow.strike h).insert h bits.2)
  · intro c hc
    obtain rfl := Option.some.inj hc
    rw [Ledger.above_cons, if_pos rfl, Nat.zero_add]
    exact hmove
  · intro k hk n
    have hne : Fate.live h ≠ .live k := fun heq => hk (Fate.live.inj heq).symm
    rw [Ledger.above_cons, if_neg hne, ← hstacked.position_undone hyoungest hk, ← hmove,
      Nat.mod_add_mod]
    congr 1
    simp only
    omega

/-- A contribution retired with none below it that is in use. -/
theorem Stacked.retire (hstacked : t.Stacked size longest L) (hc : t.applied? h = some c)
    (hbelow : ∀ e ∈ L.below h, e.fate.isLive = false) :
    Stacked size longest ⟨t.history.retire c, Session.put t.records h none⟩
      (L.turn h .retired) := by
  refine hstacked.put (hstacked.toBalanced.retire hc) ?_ ?_ (hstacked.retiredBelow.retire hbelow)
  · intro c hc
    cases hc
  · intro k hk n
    rw [Ledger.above_turn (by simp) hk]
    rfl

theorem Stacked.perform_update (hstacked : t.Stacked size longest L)
    (hbits : ∀ b, (bits b).2 ≤ 64) {b : Branch}
    (hrule : L.Orderly (!isOutOfOrder ·) (fun h => (t.records h).isSome)
      (t.perform bits (.update h b)).2 (.update h b)) :
    Stacked size longest (t.perform bits (.update h b)).1
      (L.note (fun b => (bits b).2) (fun h => (t.records h).isSome)
        (t.perform bits (.update h b)).2 (.update h b)) := by
  have horder := isOutOfOrder_update bits t h b
  obtain hrecord | ⟨c?, hrecord⟩ := Option.eq_none_or_eq_some (t.records h)
  · simpa [Timeline.perform, Ledger.note, hrecord] using hstacked
  · obtain rfl := applied?_of_records hrecord
    cases hdisorder : t.history.disordered? (t.applied? h) with
    | some violation =>
        obtain ⟨expected, found, rfl⟩ := disordered?_eq_some hdisorder
        simp only [Timeline.perform, Ledger.note, hrecord, Option.isSome_some, if_true, revise,
          hdisorder, Ledger.noteUpdate, Session.put_eq_self hrecord]
        exact hstacked
    | none =>
        have hyoungest : L.holds h = true → L.youngest? = some (.live h) := by
          intro hholds
          refine hrule hholds ?_
          simp only [horder, hdisorder]
          rfl
        simp only [Timeline.perform, Ledger.note, hrecord, Option.isSome_some, if_true, revise,
          hdisorder]
        cases hroom : (t.history.undone (t.applied? h)).appendError? (bits b).2 with
        | none => exact hstacked.insert hyoungest b.pc (hbits b) hroom
        | some error =>
            -- The undo has been carried out, although the update is refused.
            simp only [hstacked.noteUpdate_eq_strike (hbits b) hroom]
            exact hstacked.strike hyoungest rfl

theorem Stacked.perform_commit (hstacked : t.Stacked size longest L) {b : Branch}
    (hrule : L.Orderly (!isOutOfOrder ·) (fun h => (t.records h).isSome)
      (t.perform bits (.commit h b)).2 (.commit h b)) :
    Stacked size longest (t.perform bits (.commit h b)).1
      (L.note (fun b => (bits b).2) (fun h => (t.records h).isSome)
        (t.perform bits (.commit h b)).2 (.commit h b)) := by
  obtain hrecord | ⟨c?, hrecord⟩ := Option.eq_none_or_eq_some (t.records h)
  · simpa [Timeline.perform, Ledger.note, hrecord] using hstacked
  · have hinUse : (t.records h).isSome = true := by rw [hrecord, Option.isSome_some]
    obtain ⟨hholds, hbelow⟩ := hrule hinUse
    have happlied := applied?_of_records hrecord
    rw [hstacked.holds_eq, happlied] at hholds
    obtain ⟨c, rfl⟩ := Option.isSome_iff_exists.1 hholds
    have hnoted : L.holds h = true := by rw [hstacked.holds_eq, happlied, Option.isSome_some]
    simp only [Timeline.perform, Ledger.note, hrecord, Option.isSome_some, if_true, settle,
      Ledger.noteCommit, hnoted]
    exact hstacked.retire happlied hbelow

theorem Stacked.perform_squash (hstacked : t.Stacked size longest L)
    (hrule : L.Orderly (!isOutOfOrder ·) (fun h => (t.records h).isSome)
      (t.perform bits (.squash h)).2 (.squash h)) :
    Stacked size longest (t.perform bits (.squash h)).1
      (L.note (fun b => (bits b).2) (fun h => (t.records h).isSome)
        (t.perform bits (.squash h)).2 (.squash h)) := by
  have horder := isOutOfOrder_squash bits t h
  obtain hrecord | ⟨c?, hrecord⟩ := Option.eq_none_or_eq_some (t.records h)
  · simpa [Timeline.perform, Ledger.note, hrecord] using hstacked
  · obtain rfl := applied?_of_records hrecord
    cases hdisorder : t.history.disordered? (t.applied? h) with
    | some violation =>
        simp only [Timeline.perform, Ledger.note, hrecord, Option.isSome_some, if_true, withdraw,
          hdisorder]
        exact hstacked.lose rfl
    | none =>
        have hyoungest : L.holds h = true → L.youngest? = some (.live h) := by
          intro hholds
          refine hrule hholds ?_
          simp only [horder, hdisorder]
          rfl
        simp only [Timeline.perform, Ledger.note, hrecord, Option.isSome_some, if_true, withdraw,
          hdisorder]
        exact hstacked.strike hyoungest rfl

/-- Every orderly call keeps the contributions stacked, where a call is accepted unless it is
refused as out of order. -/
theorem Stacked.perform (hstacked : t.Stacked size longest L) (hbits : ∀ b, (bits b).2 ≤ 64)
    {call : Call}
    (hrule : L.Orderly (!isOutOfOrder ·) (fun h => (t.records h).isSome) (t.perform bits call).2
      call) :
    Stacked size longest (t.perform bits call).1
      (L.note (fun b => (bits b).2) (fun h => (t.records h).isSome) (t.perform bits call).2
        call) := by
  cases call with
  | predict h pc isConditional => exact hstacked.lose rfl
  | placeholder h pc isConditional => exact hstacked.lose rfl
  | update h b => exact hstacked.perform_update hbits hrule
  | repair h b => exact hstacked.perform_update hbits hrule
  | commit h b => exact hstacked.perform_commit hrule
  | squash h => exact hstacked.perform_squash hrule
  | reset => exact hrule.elim

end Timeline

/-! ## Sessions in order -/

variable {P R Q : Type} [SpeculativePredictor P R Q] [SteppedPredictor P] [HistoryKeeper P]

/-- Bits out of order are detected exactly, as the ledger of the run tells: the contribution of a
record is refused if and only if there is a bit above it, and then nothing has changed but that a
repair is counted and that a record that was squashed is gone. -/
structure Session.DetectsDisorder (s : Session P R) (L : Ledger) : Prop where
  /-- The ledger has the contributions that are applied. -/
  holds_eq : ∀ {h : Nat} {r : R}, s.records h = some r → L.holds h = (contribution? P r).isSome
  squash_iff : ∀ {h : Nat} {r : R}, s.records h = some r → L.holds h = true →
    (isOutOfOrder (s.perform (.squash h)).2 = true ↔ 0 < L.above h)
  update_iff : ∀ {h : Nat} {r : R}, s.records h = some r → L.holds h = true → ∀ b : Branch,
    (isOutOfOrder (s.perform (.update h b)).2 = true ↔ 0 < L.above h)
  repair_iff : ∀ {h : Nat} {r : R}, s.records h = some r → L.holds h = true → ∀ b : Branch,
    (isOutOfOrder (s.perform (.repair h b)).2 = true ↔ 0 < L.above h)
  squash_eq : ∀ {h : Nat} {r : R}, s.records h = some r → L.holds h = true → 0 < L.above h →
    (s.perform (.squash h)).1 = { s with records := Session.put s.records h none }
  update_eq : ∀ {h : Nat} {r : R}, s.records h = some r → L.holds h = true → 0 < L.above h →
    ∀ b : Branch, (s.perform (.update h b)).1 = s
  repair_eq : ∀ {h : Nat} {r : R}, s.records h = some r → L.holds h = true → 0 < L.above h →
    ∀ b : Branch, (s.perform (.repair h b)).1 = { s with predictor := countRepair s.predictor }

namespace KeepsHistory

variable {Sound : P → Prop} {bits : Branch → UInt64 × Nat} {s : Session P R} {h : Nat} {r : R}
  {violation : ProtocolViolation}

theorem finalize_of_disordered? (hr : Fitting s.predictor r)
    (hdisorder : (history s.predictor).disordered? (checkpoint? P r) = some violation)
    (q : P) (pc : UInt64) : finalize q r pc = r := by
  obtain hnone | hdefinite := hr.definite
  · rw [checkpoint?, hnone] at hdisorder
    cases hdisorder
  · exact hdefinite q pc

theorem update_of_disordered? (laws : KeepsHistory Sound) (hs : s.Fits Sound bits)
    (hrecord : s.records h = some r)
    (hdisorder : (history s.predictor).disordered? (checkpoint? P r) = some violation)
    (b : Branch) : s.perform (.update h b) = (s, some (.protocol violation)) := by
  have hr := hs.fitting hrecord
  simp only [Session.perform, Session.modify, hrecord, update_eq, hr.accepted, Bool.not_true,
    Bool.false_eq_true, if_false, finalize_of_disordered? hr hdisorder, laws.rollbackError?_eq,
    hdisorder, Option.map_some, Session.put_eq_self hrecord]

theorem repair_of_disordered? (laws : KeepsHistory Sound) (hs : s.Fits Sound bits)
    (hrecord : s.records h = some r)
    (hdisorder : (history s.predictor).disordered? (checkpoint? P r) = some violation)
    (b : Branch) : s.perform (.repair h b) =
      ({ s with predictor := countRepair s.predictor }, some (.protocol violation)) := by
  have hr := hs.fitting hrecord
  have haccepted : accepts (countRepair s.predictor) r = true :=
    ((laws.kept_accepts r).countRepair ⟨hs.sound, hr.accepted⟩).2
  simp only [Session.perform, Session.modify, hrecord, repair_eq, update_eq, haccepted,
    Bool.not_true, Bool.false_eq_true, if_false, finalize_of_disordered? hr hdisorder,
    laws.rollbackError?_eq, laws.history_countRepair, hdisorder, Option.map_some,
    Session.put_eq_self hrecord]

theorem squash_of_disordered? (laws : KeepsHistory Sound) (hs : s.Fits Sound bits)
    (hrecord : s.records h = some r)
    (hdisorder : (history s.predictor).disordered? (checkpoint? P r) = some violation) :
    s.perform (.squash h) =
      ({ s with records := Session.put s.records h none }, some (.protocol violation)) := by
  have hr := hs.fitting hrecord
  simp only [Session.perform, Session.release, hrecord, squash_eq, hr.accepted, Bool.not_true,
    Bool.false_eq_true, if_false, laws.rollbackError?_eq, hdisorder, Option.map_some]
  rfl

theorem detectsDisorder (laws : KeepsHistory Sound) (hs : s.Fits Sound bits) {size longest : Nat}
    {L : Ledger} (hstacked : s.timeline.Stacked size longest L) : s.DetectsDisorder L := by
  have happlied : ∀ {h : Nat} {r : R}, s.records h = some r →
      s.timeline.applied? h = checkpoint? P r := by
    intro h r hrecord
    refine Timeline.applied?_of_records ?_
    rw [records_timeline, hrecord, Option.map_some]
  have hanswer : ∀ call, (s.perform call).2 = (s.timeline.perform bits call).2 :=
    fun call => congrArg Prod.snd (laws.perform_timeline hs call).2
  have hiff : ∀ {h : Nat} {r : R}, s.records h = some r → L.holds h = true →
      ((s.timeline.history.disordered? (s.timeline.applied? h)).isSome = true ↔ 0 < L.above h) := by
    intro h r _ hholds
    rw [hstacked.holds_eq] at hholds
    obtain ⟨c, hc⟩ := Option.isSome_iff_exists.1 hholds
    exact hstacked.disordered?_isSome_iff hc
  have hdisorder : ∀ {h : Nat} {r : R}, s.records h = some r → L.holds h = true →
      0 < L.above h →
      ∃ violation, (history s.predictor).disordered? (checkpoint? P r) = some violation := by
    intro h r hrecord hholds habove
    have hsome := (hiff hrecord hholds).2 habove
    rw [happlied hrecord] at hsome
    exact Option.isSome_iff_exists.1 hsome
  constructor
  · intro h r hrecord
    rw [hstacked.holds_eq, happlied hrecord, checkpoint?, Option.isSome_map]
  · intro h r hrecord hholds
    rw [hanswer, Timeline.isOutOfOrder_squash, hiff hrecord hholds]
  · intro h r hrecord hholds b
    rw [hanswer, Timeline.isOutOfOrder_update, hiff hrecord hholds]
  · intro h r hrecord hholds b
    rw [hanswer, ← hiff hrecord hholds, ← Timeline.isOutOfOrder_update bits]
    rfl
  · intro h r hrecord hholds habove
    obtain ⟨violation, hviolation⟩ := hdisorder hrecord hholds habove
    rw [laws.squash_of_disordered? hs hrecord hviolation]
  · intro h r hrecord hholds habove b
    obtain ⟨violation, hviolation⟩ := hdisorder hrecord hholds habove
    rw [laws.update_of_disordered? hs hrecord hviolation]
  · intro h r hrecord hholds habove b
    obtain ⟨violation, hviolation⟩ := hdisorder hrecord hholds habove
    rw [laws.repair_of_disordered? hs hrecord hviolation]

theorem stacked_start {p : P} {size pathBits longest : Nat}
    (hcreate : SpeculativeHistory.create size pathBits longest = .ok (history p)) :
    (Session.start p).timeline.Stacked size longest [] := by
  refine ⟨Session.balanced_start hcreate, ?_, List.Pairwise.nil⟩
  intro h c hc
  cases hc

theorem stacked_run (laws : KeepsHistory Sound) (hs : s.Fits Sound bits)
    (hbits : ∀ b, (bits b).2 ≤ 64) {size longest : Nat} {L : Ledger}
    (hstacked : s.timeline.Stacked size longest L) {calls : List Call}
    (horderly : s.Follows (Ledger.Orderly (!isOutOfOrder ·)) L calls) :
    (s.run calls).timeline.Stacked size longest (s.ledger L calls) :=
  laws.ledger_run (fun h hrule => h.perform hbits hrule) hs hstacked horderly

end KeepsHistory

/-- After every run without a reset in which whatever was undone was the youngest contribution, and
nothing committed before its history was inserted or above an older contribution in use, bits out
of order are detected exactly. -/
theorem refused_iff_of_orderly :
    (∀ {c : TageScl.Config} {p : TageScl}, c.build = .ok p → ∀ {calls : List Call},
      (Session.start p).Follows (Ledger.Orderly (!isOutOfOrder ·)) [] calls →
        ((Session.start p).run calls).DetectsDisorder ((Session.start p).ledger [] calls)) ∧
      ∀ {c : Ittage.Config} {p : Ittage}, c.build = .ok p → ∀ {calls : List Call},
        (Session.start p).Follows (Ledger.Orderly (!isOutOfOrder ·)) [] calls →
          ((Session.start p).run calls).DetectsDisorder ((Session.start p).ledger [] calls) := by
  constructor
  · intro c p hbuild calls horderly
    obtain ⟨-, -, hcreate⟩ := TageScl.build_eq_ok hbuild
    have laws := TageScl.keepsHistory c
    have hfits := TageScl.fits_build hbuild
    exact laws.detectsDisorder (laws.run_timeline hfits calls).1
      (laws.stacked_run hfits c.historyBits_le (KeepsHistory.stacked_start hcreate) horderly)
  · intro c p hbuild calls horderly
    obtain ⟨hvalid, -, hcreate⟩ := Ittage.build_eq_ok hbuild
    have laws := Ittage.keepsHistory c
    have hfits := Ittage.fits_build hbuild
    exact laws.detectsDisorder (laws.run_timeline hfits calls).1
      (laws.stacked_run hfits (c.historyBits_le hvalid) (KeepsHistory.stacked_start hcreate)
        horderly)

/-- A run in order: the oldest of three branches commits, and a repair of the second one is refused
since the third one is in flight. -/
def orderlyRun : List Call :=
  [.predict 0 4 false, .update 0 ⟨4, .indirectJump, .taken, 64⟩,
    .predict 1 8 true, .update 1 ⟨8, .directBranch, .taken, 32⟩,
    .commit 0 ⟨4, .indirectJump, .taken, 64⟩,
    .placeholder 2 12 true, .update 2 ⟨12, .directBranch, .taken, 16⟩,
    .repair 1 ⟨8, .directBranch, .notTaken, 32⟩,
    .repair 2 ⟨12, .directBranch, .notTaken, 16⟩]

theorem orderlyRun_detectsDisorder :
    ((Session.start (TageScl.small none)).ledger [] orderlyRun =
        [⟨.live 2, 1⟩, ⟨.live 1, 1⟩, ⟨.retired, 1⟩] ∧
      ((Session.start (TageScl.small none)).run orderlyRun).DetectsDisorder
        ((Session.start (TageScl.small none)).ledger [] orderlyRun)) ∧
    (Session.start Ittage.small).ledger [] orderlyRun =
        [⟨.live 2, 1⟩, ⟨.live 1, 1⟩, ⟨.retired, 2⟩] ∧
      ((Session.start Ittage.small).run orderlyRun).DetectsDisorder
        ((Session.start Ittage.small).ledger [] orderlyRun) := by
  have hbuildTageScl : (TageScl.smallConfig none).build = .ok (TageScl.small none) := rfl
  have hbuildIttage : Ittage.smallConfig.build = .ok Ittage.small := rfl
  obtain ⟨htageScl, hittage⟩ := refused_iff_of_orderly
  constructor
  · exact ⟨by decide +kernel, htageScl hbuildTageScl (by decide +kernel)⟩
  · exact ⟨by decide +kernel, hittage hbuildIttage (by decide +kernel)⟩

/-- The oldest of four branches stays in flight with the next one.  The third one, below a return
that inserts nothing, is updated anew: it is undone, and then its new history has no room. -/
def misleadingRun : List Call :=
  [.predict 0 4 false, .update 0 ⟨4, .indirectJump, .taken, 64⟩,
    .predict 1 8 true, .update 1 ⟨8, .directBranch, .taken, 32⟩,
    .predict 2 12 true, .update 2 ⟨12, .directBranch, .taken, 16⟩,
    .predict 3 16 false, .update 3 ⟨16, .procedureReturn, .taken, 20⟩,
    .update 2 ⟨12, .indirectJump, .taken, 16⟩]

/-- It is not enough that the calls that succeed undo the youngest contribution: after an update
that undid another one and then found no room, a return with no bit above it is refused. -/
theorem misleadingRun_not_detectsDisorder :
    Ittage.smallConfig.build = .ok Ittage.small ∧
      (Session.start Ittage.small).Follows (Ledger.Orderly (·.isNone)) [] misleadingRun ∧
      ((Session.start Ittage.small).ledger [] misleadingRun).above 3 = 0 ∧
      isOutOfOrder (((Session.start Ittage.small).run misleadingRun).perform (.squash 3)).2 = true ∧
      ¬ ((Session.start Ittage.small).run misleadingRun).DetectsDisorder
        ((Session.start Ittage.small).ledger [] misleadingRun) := by
  have habove : ((Session.start Ittage.small).ledger [] misleadingRun).above 3 = 0 := by
    decide +kernel
  have hrefused :
      isOutOfOrder (((Session.start Ittage.small).run misleadingRun).perform (.squash 3)).2 =
        true := by
    decide +kernel
  refine ⟨rfl, by decide +kernel, habove, hrefused, ?_⟩
  intro hdetects
  obtain ⟨r, hrecord⟩ : ∃ r,
      ((Session.start Ittage.small).run misleadingRun).records 3 = some r :=
    Option.isSome_iff_exists.1 (by decide +kernel)
  have hpos := (hdetects.squash_iff hrecord (by decide +kernel)).1 hrefused
  omega

end BranchPrediction
