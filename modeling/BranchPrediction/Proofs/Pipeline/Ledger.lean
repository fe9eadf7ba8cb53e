import BranchPrediction.Proofs.Pipeline.Timeline
import Mathlib.Algebra.GroupWithZero.Nat

/-!
# The ledger of a run

A `Ledger` lists the contributions of a run that were not undone, youngest first, with the number of
bits of each and what has become of its record.  It is kept from the outside: each call is noted
with the error that it answered (`Ledger.note`), and the state of the predictor is not looked at.

`Timeline.Balanced` says that the history agrees with the ledger: the bits in flight are those of
the contributions that have not retired, and every contribution that is applied has the number of
bits that its entry says.  Every call keeps the balance (`Timeline.Balanced.perform`), a reset
excepted, which forgets the history but not the contributions of the records in use.
-/

namespace BranchPrediction

/-! ## Ledgers -/

/-- What has become of a contribution that was not undone. -/
inductive Fate where
  /-- It belongs to the record of a handle. -/
  | live (h : Nat)
  /-- Its record was given up, in a squash that was refused or for a new record. -/
  | lost
  /-- Its branch has committed. -/
  | retired
  deriving DecidableEq, Repr

def Fate.isLive : Fate → Bool
  | live _ => true
  | _ => false

/-- A contribution that was not undone. -/
structure Outstanding where
  fate : Fate
  width : Nat
  deriving DecidableEq, Repr

/-- The contributions that were not undone, youngest first. -/
abbrev Ledger :=
  List Outstanding

namespace Ledger

/-- The number of bits that have not retired. -/
def speculative (L : Ledger) : Nat :=
  ((L.filter (·.fate ≠ .retired)).map (·.width)).sum

def holds (L : Ledger) (h : Nat) : Bool :=
  L.any (·.fate = .live h)

/-- The number of bits that are above the contribution of a handle. -/
def above (L : Ledger) (h : Nat) : Nat :=
  ((L.takeWhile (·.fate ≠ .live h)).map (·.width)).sum

/-- The contribution of a handle is undone. -/
def strike (L : Ledger) (h : Nat) : Ledger :=
  L.filter (·.fate ≠ .live h)

/-- The record of a handle is gone, and its contribution stays. -/
def turn (L : Ledger) (h : Nat) (fate : Fate) : Ledger :=
  L.map fun e => if e.fate = .live h then { e with fate } else e

/-- Note an update of the record of a handle.  Without room for the new contribution the earlier
one has been undone all the same. -/
def noteUpdate (L : Ledger) (h width : Nat) : Option PredictorError → Ledger
  | none => ⟨.live h, width⟩ :: L.strike h
  | some (.protocol (.historyOverflow _ _)) => L.strike h
  | some _ => L

/-- Note a commit, which inserts the history of a branch if that has not been done. -/
def noteCommit (L : Ledger) (h width : Nat) : Option PredictorError → Ledger
  | none => if L.holds h then L.turn h .retired else ⟨.retired, width⟩ :: L
  | some _ => L.turn h .lost

def noteSquash (L : Ledger) (h : Nat) : Option PredictorError → Ledger
  | none => L.strike h
  | some _ => L.turn h .lost

/-- Note a call and the error that it answered.  A call on a handle that is not in use does
nothing. -/
def note (width : Branch → Nat) (inUse : Nat → Bool) (error? : Option PredictorError)
    (L : Ledger) : Call → Ledger
  | .predict h _ _ | .placeholder h _ _ => L.turn h .lost
  | .update h b | .repair h b => if inUse h then L.noteUpdate h (width b) error? else L
  | .commit h b => if inUse h then L.noteCommit h (width b) error? else L
  | .squash h => if inUse h then L.noteSquash h error? else L
  | .reset => []

/-- The numbers of bits of the contributions of a handle; there is at most one. -/
def widthsOf (L : Ledger) (h : Nat) : List Nat :=
  (L.filter (·.fate = .live h)).map (·.width)

theorem strike_cons (e : Outstanding) (L : Ledger) (h : Nat) :
    strike (e :: L) h = if e.fate = .live h then L.strike h else e :: L.strike h := by
  by_cases hlive : e.fate = .live h
  · rw [strike, List.filter_cons_of_neg (by simpa using hlive), if_pos hlive, strike]
  · rw [strike, List.filter_cons_of_pos (by simpa using hlive), if_neg hlive, strike]

theorem turn_cons (e : Outstanding) (L : Ledger) (h : Nat) (fate : Fate) :
    turn (e :: L) h fate = (if e.fate = .live h then { e with fate } else e) :: L.turn h fate :=
  rfl

theorem widthsOf_cons (e : Outstanding) (L : Ledger) (h : Nat) :
    widthsOf (e :: L) h = if e.fate = .live h then e.width :: L.widthsOf h else L.widthsOf h := by
  by_cases hlive : e.fate = .live h
  · simp [widthsOf, hlive]
  · simp [widthsOf, hlive]

theorem speculative_cons (e : Outstanding) (L : Ledger) :
    speculative (e :: L) = (if e.fate = .retired then 0 else e.width) + L.speculative := by
  by_cases hretired : e.fate = .retired
  · simp [speculative, hretired]
  · simp [speculative, hretired]

/-! ## The contribution of one handle -/

theorem holds_eq (L : Ledger) (h : Nat) : L.holds h = !(L.widthsOf h).isEmpty := by
  induction L with
  | nil => rfl
  | cons e L ih =>
      rw [widthsOf_cons, holds, List.any_cons]
      by_cases hlive : e.fate = .live h
      · simp [hlive]
      · simp only [hlive, decide_false, Bool.false_or, if_false]
        exact ih

theorem widthsOf_strike (L : Ledger) (h k : Nat) :
    (L.strike h).widthsOf k = if k = h then [] else L.widthsOf k := by
  induction L with
  | nil => simp [strike, widthsOf]
  | cons e L ih =>
      rw [strike_cons]
      by_cases hlive : e.fate = .live h
      · rw [if_pos hlive, ih, widthsOf_cons, hlive]
        by_cases hk : k = h
        · rw [if_pos hk, if_pos hk]
        · have hne : Fate.live h ≠ .live k := fun heq => hk (Fate.live.inj heq).symm
          rw [if_neg hk, if_neg hk, if_neg hne]
      · rw [if_neg hlive, widthsOf_cons, ih, widthsOf_cons]
        by_cases hk : k = h
        · rw [if_pos hk, if_pos hk, hk, if_neg hlive]
        · rw [if_neg hk, if_neg hk]

theorem widthsOf_turn (L : Ledger) (h k : Nat) {fate : Fate} (hfate : ∀ k, fate ≠ .live k) :
    (L.turn h fate).widthsOf k = if k = h then [] else L.widthsOf k := by
  induction L with
  | nil => simp [turn, widthsOf]
  | cons e L ih =>
      rw [turn_cons, widthsOf_cons, ih, widthsOf_cons]
      by_cases hlive : e.fate = .live h
      · rw [if_pos hlive, if_neg (hfate k), hlive]
        by_cases hk : k = h
        · rw [if_pos hk, if_pos hk]
        · have hne : Fate.live h ≠ .live k := fun heq => hk (Fate.live.inj heq).symm
          rw [if_neg hk, if_neg hk, if_neg hne]
      · rw [if_neg hlive]
        by_cases hk : k = h
        · rw [if_pos hk, if_pos hk, hk, if_neg hlive]
        · rw [if_neg hk, if_neg hk]

/-! ## Bits in flight -/

theorem speculative_strike (L : Ledger) (h : Nat) :
    (L.strike h).speculative + (L.widthsOf h).sum = L.speculative := by
  induction L with
  | nil => rfl
  | cons e L ih =>
      rw [strike_cons, widthsOf_cons, speculative_cons]
      by_cases hlive : e.fate = .live h
      · simp only [hlive, if_true, List.sum_cons, reduceCtorEq, if_false]
        omega
      · simp only [hlive, if_false, speculative_cons]
        omega

theorem speculative_turn_lost (L : Ledger) (h : Nat) :
    (L.turn h .lost).speculative = L.speculative := by
  induction L with
  | nil => rfl
  | cons e L ih =>
      rw [turn_cons, speculative_cons, speculative_cons, ih]
      by_cases hlive : e.fate = .live h
      · simp [hlive]
      · simp [hlive]

theorem speculative_turn_retired (L : Ledger) (h : Nat) :
    (L.turn h .retired).speculative + (L.widthsOf h).sum = L.speculative := by
  induction L with
  | nil => rfl
  | cons e L ih =>
      rw [turn_cons, speculative_cons, speculative_cons, widthsOf_cons]
      by_cases hlive : e.fate = .live h
      · simp only [hlive, if_true, List.sum_cons, reduceCtorEq, if_false]
        omega
      · simp only [hlive, if_false]
        omega

end Ledger

/-- The answer that a contribution is not undone, since it is not the youngest one applied. -/
def isOutOfOrder : Option PredictorError → Bool
  | some (.protocol (.outOfOrderRollback _ _)) => true
  | _ => false

/-! ## Sizes of histories -/

namespace SpeculativeHistory

def dimensions (h : SpeculativeHistory) : Nat × Nat :=
  (h.register.size, h.longest)

theorem size_unpushBits {α : Type} [HistoryView α] (overwritten : UInt64) (count : Nat)
    (r : HistoryRegister) (views : α) :
    (unpushBits overwritten count r views).1.size = r.size := by
  induction count generalizing r views with
  | zero => rfl
  | succ count ih =>
      simp only [unpushBits, unpushBit]
      rw [ih, HistoryRegister.size_unpush]

theorem dimensions_insert (h : SpeculativeHistory) (bits : UInt64 × Nat) (pc : UInt64) :
    (h.insert bits pc).2.dimensions = h.dimensions :=
  Prod.ext (size_pushBits bits.1 bits.2 h.register noViews) rfl

theorem dimensions_undone (h : SpeculativeHistory) (c? : Option Checkpoint) :
    (h.undone c?).dimensions = h.dimensions := by
  cases c? with
  | none => rfl
  | some c => exact Prod.ext (size_unpushBits c.overwritten c.count h.register noViews) rfl

theorem inFlight_insert (h : SpeculativeHistory) (bits : UInt64 × Nat) (pc : UInt64) :
    (h.insert bits pc).2.inFlight = h.inFlight + bits.2 :=
  rfl

theorem inFlight_undone (h : SpeculativeHistory) (c? : Option Checkpoint) :
    (h.undone c?).inFlight = h.inFlight - (c?.toList.map (·.count)).sum := by
  cases c? with
  | none => rfl
  | some c => rfl

/-- The answer to inserting bits into a history that takes at most `capacity` of them, when they
would be `total` with those in flight. -/
def overflowAt (capacity total : Nat) : Option PredictorError :=
  if capacity < total then some (.protocol (.historyOverflow total capacity)) else none

theorem appendError?_eq_overflowAt {h : SpeculativeHistory} {size longest n : Nat}
    (hdimensions : h.dimensions = (size, longest)) (hlongest : longest < size) (hn : n ≤ 64) :
    h.appendError? n = overflowAt (size - longest - 1) (h.inFlight + n) := by
  obtain ⟨hsize, hlong⟩ := Prod.mk.inj hdimensions
  rw [appendError?, if_neg (by omega), overflow?, overflowAt, hsize, hlong]
  by_cases hover : size ≤ h.inFlight + n + longest
  · rw [if_pos hover, if_pos (by omega)]
    rfl
  · rw [if_neg hover, if_neg (by omega)]
    rfl

theorem overflowAt_eq_none_iff {capacity total : Nat} :
    overflowAt capacity total = none ↔ total ≤ capacity := by
  unfold overflowAt
  split
  · simp; omega
  · simp; omega

theorem isOutOfOrder_appendError? (h : SpeculativeHistory) (n : Nat) :
    isOutOfOrder (h.appendError? n) = false := by
  unfold appendError? overflow?
  split
  · rfl
  · split
    · rfl
    · rfl

end SpeculativeHistory

/-! ## The balance of a timeline -/

namespace Timeline

open SpeculativeHistory

def applied? (t : Timeline) (h : Nat) : Option Checkpoint :=
  (t.records h).join

/-- The history has the bits in flight that the ledger says, and room beside them for the longest
history; each contribution has the bits of its entry. -/
structure Balanced (size longest : Nat) (t : Timeline) (L : Ledger) : Prop where
  dimensions_eq : t.history.dimensions = (size, longest)
  inFlight_eq : t.history.inFlight = L.speculative
  widths_eq : ∀ h, L.widthsOf h = (t.applied? h).toList.map (·.count)
  room : L.speculative + longest < size

variable {size longest : Nat} {t : Timeline} {L : Ledger} {h : Nat}

theorem applied?_of_records {c? : Option Checkpoint} (hrecord : t.records h = some c?) :
    t.applied? h = c? := by
  rw [applied?, hrecord]
  rfl

theorem applied?_put (history : SpeculativeHistory) (records : Nat → Option (Option Checkpoint))
    (h k : Nat) (r? : Option (Option Checkpoint)) :
    applied? ⟨history, Session.put records h r?⟩ k =
      if k = h then r?.join else (records k).join := by
  change (Session.put records h r? k).join = _
  by_cases hk : k = h
  · rw [if_pos hk, hk, Session.put_same]
  · rw [if_neg hk, Session.put_of_ne _ hk]

/-- The ledger has the contribution of a handle exactly when it is applied. -/
theorem Balanced.holds_eq (hbalanced : t.Balanced size longest L) (h : Nat) :
    L.holds h = (t.applied? h).isSome := by
  rw [Ledger.holds_eq, hbalanced.widths_eq]
  cases t.applied? h with
  | none => rfl
  | some c => rfl

/-- The bits of a contribution are among those in flight. -/
theorem Balanced.count_le (hbalanced : t.Balanced size longest L) {c : Checkpoint}
    (hc : t.applied? h = some c) : c.count ≤ t.history.inFlight := by
  have hstrike := L.speculative_strike h
  rw [hbalanced.widths_eq, hc] at hstrike
  simp only [Option.toList_some, List.map_singleton, List.sum_singleton] at hstrike
  rw [hbalanced.inFlight_eq]
  omega

/-- Undoing the contribution of a handle, if it has one, strikes it off. -/
theorem Balanced.inFlight_undone (hbalanced : t.Balanced size longest L) (h : Nat) :
    (t.history.undone (t.applied? h)).inFlight = (L.strike h).speculative := by
  have hstrike := L.speculative_strike h
  rw [hbalanced.widths_eq] at hstrike
  rw [SpeculativeHistory.inFlight_undone, hbalanced.inFlight_eq]
  omega

/-- There is room as long as no more than the capacity is in flight, and the answer says so. -/
theorem Balanced.appendError?_undone (hbalanced : t.Balanced size longest L) (h : Nat) {n : Nat}
    (hn : n ≤ 64) :
    (t.history.undone (t.applied? h)).appendError? n =
      overflowAt (size - longest - 1) ((L.strike h).speculative + n) := by
  have hroom := hbalanced.room
  rw [appendError?_eq_overflowAt ((dimensions_undone _ _).trans hbalanced.dimensions_eq)
    (by omega) hn, hbalanced.inFlight_undone]

/-- An update for which there is no room is noted as undone. -/
theorem Balanced.noteUpdate_eq_strike (hbalanced : t.Balanced size longest L) {n width : Nat}
    (hn : n ≤ 64) {error : PredictorError}
    (herror : (t.history.undone (t.applied? h)).appendError? n = some error) :
    L.noteUpdate h width (some error) = L.strike h := by
  rw [hbalanced.appendError?_undone h hn, overflowAt] at herror
  split at herror
  · obtain rfl := Option.some.inj herror
    rfl
  · cases herror

/-- A timeline with a new contribution for one handle, or none, is balanced with a ledger that
differs in the entries of that handle. -/
theorem Balanced.put (hbalanced : t.Balanced size longest L) {history : SpeculativeHistory}
    {r? : Option (Option Checkpoint)} {L' : Ledger}
    (hdimensions : history.dimensions = t.history.dimensions)
    (hinFlight : history.inFlight = L'.speculative) (hroom : L'.speculative + longest < size)
    (hwidths : ∀ k, L'.widthsOf k =
      if k = h then r?.join.toList.map (·.count) else L.widthsOf k) :
    Balanced size longest ⟨history, Session.put t.records h r?⟩ L' := by
  refine ⟨hdimensions.trans hbalanced.dimensions_eq, hinFlight, fun k => ?_, hroom⟩
  rw [hwidths, applied?_put]
  by_cases hk : k = h
  · rw [if_pos hk, if_pos hk]
  · rw [if_neg hk, if_neg hk]
    exact hbalanced.widths_eq k

theorem Balanced.strike (hbalanced : t.Balanced size longest L) {r? : Option (Option Checkpoint)}
    (hr : r?.join = none) :
    Balanced size longest
      ⟨t.history.undone (t.applied? h), Session.put t.records h r?⟩ (L.strike h) := by
  have hstrike := L.speculative_strike h
  have hroom := hbalanced.room
  refine hbalanced.put (dimensions_undone _ _) (hbalanced.inFlight_undone h) (by omega)
    fun k => ?_
  rw [Ledger.widthsOf_strike, hr]
  rfl

theorem Balanced.lose (hbalanced : t.Balanced size longest L) {r? : Option (Option Checkpoint)}
    (hr : r?.join = none) :
    Balanced size longest ⟨t.history, Session.put t.records h r?⟩ (L.turn h .lost) := by
  have hlost := L.speculative_turn_lost h
  refine hbalanced.put rfl (hbalanced.inFlight_eq.trans hlost.symm)
    (hlost.symm ▸ hbalanced.room) fun k => ?_
  rw [Ledger.widthsOf_turn L h k (by simp), hr]
  rfl

theorem Balanced.insert (hbalanced : t.Balanced size longest L) {bits : UInt64 × Nat}
    (pc : UInt64) (hbits : bits.2 ≤ 64)
    (hroom : (t.history.undone (t.applied? h)).appendError? bits.2 = none) :
    Balanced size longest
      ⟨((t.history.undone (t.applied? h)).insert bits pc).2, Session.put t.records h
        (some (some ((t.history.undone (t.applied? h)).insert bits pc).1))⟩
      (⟨.live h, bits.2⟩ :: L.strike h) := by
  have hsum : Ledger.speculative (⟨.live h, bits.2⟩ :: L.strike h) =
      (L.strike h).speculative + bits.2 := by
    rw [Ledger.speculative_cons, if_neg (by simp), Nat.add_comm]
  have hlong := hbalanced.room
  rw [hbalanced.appendError?_undone h hbits, overflowAt_eq_none_iff] at hroom
  refine hbalanced.put ((dimensions_insert _ _ _).trans (dimensions_undone _ _)) ?_ ?_ fun k => ?_
  · rw [hsum, inFlight_insert, hbalanced.inFlight_undone]
  · rw [hsum]
    omega
  · rw [Ledger.widthsOf_cons, Ledger.widthsOf_strike]
    by_cases hk : k = h
    · subst hk
      rw [if_pos rfl, if_pos rfl, if_pos rfl]
      rfl
    · have hne : Fate.live h ≠ .live k := fun heq => hk (Fate.live.inj heq).symm
      rw [if_neg hne, if_neg hk, if_neg hk]

theorem Balanced.retire (hbalanced : t.Balanced size longest L) {c : Checkpoint}
    (hc : t.applied? h = some c) :
    Balanced size longest ⟨t.history.retire c, Session.put t.records h none⟩
      (L.turn h .retired) := by
  have hretired := L.speculative_turn_retired h
  have hroom := hbalanced.room
  have hinFlight := hbalanced.inFlight_eq
  rw [hbalanced.widths_eq, hc] at hretired
  simp only [Option.toList_some, List.map_singleton, List.sum_singleton] at hretired
  refine hbalanced.put rfl ?_ (by omega) fun k => ?_
  · change t.history.inFlight - c.count = _
    omega
  · rw [Ledger.widthsOf_turn L h k (by simp)]
    rfl

theorem Balanced.pass (hbalanced : t.Balanced size longest L) (hnone : t.applied? h = none)
    (bits : UInt64 × Nat) (pc : UInt64) :
    Balanced size longest
      ⟨(t.history.insert bits pc).2.retire (t.history.insert bits pc).1,
        Session.put t.records h none⟩ (⟨.retired, bits.2⟩ :: L) := by
  have hsum : Ledger.speculative (⟨.retired, bits.2⟩ :: L) = L.speculative := by
    rw [Ledger.speculative_cons, if_pos rfl, Nat.zero_add]
  refine hbalanced.put (dimensions_insert _ bits pc) ?_ (hsum.symm ▸ hbalanced.room) fun k => ?_
  · change t.history.inFlight + bits.2 - bits.2 = _
    rw [hsum, Nat.add_sub_cancel, hbalanced.inFlight_eq]
  · rw [Ledger.widthsOf_cons, if_neg (by simp)]
    by_cases hk : k = h
    · rw [if_pos hk, hk, hbalanced.widths_eq, hnone]
      rfl
    · rw [if_neg hk]

/-! ## Calls -/

variable {bits : Branch → UInt64 × Nat}

theorem disordered?_eq_some {history : SpeculativeHistory} {c? : Option Checkpoint}
    {violation : ProtocolViolation} (hdisorder : history.disordered? c? = some violation) :
    ∃ expected found, violation = .outOfOrderRollback expected found := by
  obtain ⟨c, -, hc⟩ := Option.bind_eq_some_iff.1 hdisorder
  simp only [disorder?] at hc
  split at hc
  · cases hc
  · exact ⟨_, _, (Option.some.inj hc).symm⟩

theorem isOutOfOrder_update (bits : Branch → UInt64 × Nat) (t : Timeline) (h : Nat) (b : Branch) :
    isOutOfOrder (t.perform bits (.update h b)).2 =
      (t.history.disordered? (t.applied? h)).isSome := by
  obtain hrecord | ⟨c?, hrecord⟩ := Option.eq_none_or_eq_some (t.records h)
  · simp only [Timeline.perform, applied?, hrecord]
    rfl
  · obtain rfl := applied?_of_records hrecord
    simp only [Timeline.perform, hrecord, revise]
    cases hdisorder : t.history.disordered? (t.applied? h) with
    | some violation =>
        obtain ⟨expected, found, rfl⟩ := disordered?_eq_some hdisorder
        rfl
    | none =>
        have hroom := isOutOfOrder_appendError? (t.history.undone (t.applied? h)) (bits b).2
        simp only
        cases herror : (t.history.undone (t.applied? h)).appendError? (bits b).2 with
        | none => rfl
        | some error => rwa [herror] at hroom

theorem isOutOfOrder_squash (bits : Branch → UInt64 × Nat) (t : Timeline) (h : Nat) :
    isOutOfOrder (t.perform bits (.squash h)).2 =
      (t.history.disordered? (t.applied? h)).isSome := by
  obtain hrecord | ⟨c?, hrecord⟩ := Option.eq_none_or_eq_some (t.records h)
  · simp only [Timeline.perform, applied?, hrecord]
    rfl
  · obtain rfl := applied?_of_records hrecord
    simp only [Timeline.perform, hrecord, withdraw]
    cases hdisorder : t.history.disordered? (t.applied? h) with
    | some violation =>
        obtain ⟨expected, found, rfl⟩ := disordered?_eq_some hdisorder
        rfl
    | none => rfl

theorem Balanced.perform_update (hbalanced : t.Balanced size longest L)
    (hbits : ∀ b, (bits b).2 ≤ 64) (h : Nat) (b : Branch) :
    Balanced size longest (t.perform bits (.update h b)).1
      (L.note (fun b => (bits b).2) (fun h => (t.records h).isSome)
        (t.perform bits (.update h b)).2 (.update h b)) := by
  obtain hrecord | ⟨c?, hrecord⟩ := Option.eq_none_or_eq_some (t.records h)
  · simpa [Timeline.perform, Ledger.note, hrecord] using hbalanced
  · obtain rfl := applied?_of_records hrecord
    simp only [Timeline.perform, Ledger.note, hrecord, Option.isSome_some, if_true, revise]
    cases hdisorder : t.history.disordered? (t.applied? h) with
    | some violation =>
        obtain ⟨expected, found, rfl⟩ := disordered?_eq_some hdisorder
        simp only [Ledger.noteUpdate, Session.put_eq_self hrecord]
        exact hbalanced
    | none =>
        simp only
        cases hroom : (t.history.undone (t.applied? h)).appendError? (bits b).2 with
        | none => exact hbalanced.insert b.pc (hbits b) hroom
        | some error =>
            simp only [hbalanced.noteUpdate_eq_strike (hbits b) hroom]
            exact hbalanced.strike rfl

theorem Balanced.perform_commit (hbalanced : t.Balanced size longest L) (h : Nat) (b : Branch) :
    Balanced size longest (t.perform bits (.commit h b)).1
      (L.note (fun b => (bits b).2) (fun h => (t.records h).isSome)
        (t.perform bits (.commit h b)).2 (.commit h b)) := by
  obtain hrecord | ⟨c?, hrecord⟩ := Option.eq_none_or_eq_some (t.records h)
  · simpa [Timeline.perform, Ledger.note, hrecord] using hbalanced
  · have happlied := applied?_of_records hrecord
    have hholds := hbalanced.holds_eq h
    rw [happlied] at hholds
    simp only [Timeline.perform, Ledger.note, hrecord, Option.isSome_some, if_true]
    cases c? with
    | some c =>
        simp only [settle, Ledger.noteCommit, hholds, Option.isSome_some, if_true]
        exact hbalanced.retire happlied
    | none =>
        simp only [settle]
        cases t.history.appendError? (bits b).2 with
        | some error => exact hbalanced.lose rfl
        | none =>
            simp only [Ledger.noteCommit, hholds, Option.isSome_none, Bool.false_eq_true, if_false]
            exact hbalanced.pass happlied (bits b) b.pc

theorem Balanced.perform_squash (hbalanced : t.Balanced size longest L) (h : Nat) :
    Balanced size longest (t.perform bits (.squash h)).1
      (L.note (fun b => (bits b).2) (fun h => (t.records h).isSome)
        (t.perform bits (.squash h)).2 (.squash h)) := by
  obtain hrecord | ⟨c?, hrecord⟩ := Option.eq_none_or_eq_some (t.records h)
  · simpa [Timeline.perform, Ledger.note, hrecord] using hbalanced
  · obtain rfl := applied?_of_records hrecord
    simp only [Timeline.perform, Ledger.note, hrecord, Option.isSome_some, if_true, withdraw]
    cases t.history.disordered? (t.applied? h) with
    | some violation => exact hbalanced.lose rfl
    | none => exact hbalanced.strike rfl

/-- Every call but a reset keeps the balance, when it is noted with its answer. -/
theorem Balanced.perform (hbalanced : t.Balanced size longest L) (hbits : ∀ b, (bits b).2 ≤ 64)
    {call : Call} (hreset : call ≠ .reset) :
    Balanced size longest (t.perform bits call).1
      (L.note (fun b => (bits b).2) (fun h => (t.records h).isSome) (t.perform bits call).2
        call) := by
  cases call with
  | predict h pc isConditional => exact hbalanced.lose rfl
  | placeholder h pc isConditional => exact hbalanced.lose rfl
  | update h b => exact hbalanced.perform_update hbits h b
  | repair h b => exact hbalanced.perform_update hbits h b
  | commit h b => exact hbalanced.perform_commit h b
  | squash h => exact hbalanced.perform_squash h
  | reset => exact absurd rfl hreset

end Timeline

/-! ## The ledger of a session -/

open SteppedPredictor HistoryKeeper

variable {P R Q : Type} [SpeculativePredictor P R Q] [SteppedPredictor P] [HistoryKeeper P]

namespace Session

def inUse (s : Session P R) (h : Nat) : Bool :=
  (s.records h).isSome

def note (s : Session P R) (L : Ledger) (call : Call) : Ledger :=
  L.note (fun b => (historyBits s.predictor b).2) s.inUse (s.perform call).2 call

def ledger (s : Session P R) (L : Ledger) : List Call → Ledger
  | [] => L
  | call :: calls => ledger (s.perform call).1 (s.note L call) calls

/-- Each call of a run is one that the rule allows, which may look at the handles in use, the
answer and the ledger. -/
def Follows (rule : (Nat → Bool) → Option PredictorError → Ledger → Call → Prop)
    (s : Session P R) (L : Ledger) : List Call → Prop
  | [] => True
  | call :: calls =>
    rule s.inUse (s.perform call).2 L call ∧ Follows rule (s.perform call).1 (s.note L call) calls

instance decidableFollows (rule : (Nat → Bool) → Option PredictorError → Ledger → Call → Prop)
    [∀ inUse error? L call, Decidable (rule inUse error? L call)] (s : Session P R) (L : Ledger) :
    (calls : List Call) → Decidable (s.Follows rule L calls)
  | [] => inferInstanceAs (Decidable True)
  | call :: calls =>
    have := decidableFollows rule (s.perform call).1 (s.note L call) calls
    inferInstanceAs (Decidable (_ ∧ _))

omit [SteppedPredictor P] in
theorem follows_of_forall {rule : (Nat → Bool) → Option PredictorError → Ledger → Call → Prop}
    (s : Session P R) (L : Ledger) {calls : List Call}
    (hrule : ∀ call ∈ calls, ∀ inUse error? L, rule inUse error? L call) :
    s.Follows rule L calls := by
  induction calls generalizing s L with
  | nil => trivial
  | cons call calls ih =>
      refine ⟨hrule call (by simp) _ _ L, ih _ _ fun call hcall => ?_⟩
      exact hrule call (List.mem_cons_of_mem _ hcall)

theorem balanced_start {p : P} {size pathBits longest : Nat}
    (hcreate : SpeculativeHistory.create size pathBits longest = .ok (history p)) :
    (start p).timeline.Balanced size longest [] := by
  obtain ⟨hlongest, hpos, hhistory⟩ := SpeculativeHistory.create_eq_ok hcreate
  have htimeline : (start p : Session P R).timeline.history = history p := rfl
  rw [hhistory] at htimeline
  refine ⟨?_, ?_, fun h => rfl, ?_⟩
  · rw [htimeline, SpeculativeHistory.dimensions, HistoryRegister.size_zeros]
  · rw [htimeline]
    rfl
  · rwa [Ledger.speculative, List.filter_nil, List.map_nil, List.sum_nil, Nat.zero_add]

end Session

namespace KeepsHistory

variable {Sound : P → Prop} {bits : Branch → UInt64 × Nat}

/-- What every call that follows the rule keeps of the timeline and its ledger, a run keeps that
follows the rule. -/
theorem ledger_run (laws : KeepsHistory Sound) {I : Timeline → Ledger → Prop}
    {rule : (Nat → Bool) → Option PredictorError → Ledger → Call → Prop}
    (hstep : ∀ {t : Timeline} {L : Ledger} {call : Call}, I t L →
      rule (fun h => (t.records h).isSome) (t.perform bits call).2 L call →
      I (t.perform bits call).1 (L.note (fun b => (bits b).2) (fun h => (t.records h).isSome)
        (t.perform bits call).2 call))
    {s : Session P R} (hs : s.Fits Sound bits) {L : Ledger} (hI : I s.timeline L)
    {calls : List Call} (hfollows : s.Follows rule L calls) :
    I (s.run calls).timeline (s.ledger L calls) := by
  induction calls generalizing s L with
  | nil => exact hI
  | cons call calls ih =>
      obtain ⟨hrule, hrest⟩ := hfollows
      obtain ⟨hfits, hperform⟩ := laws.perform_timeline hs call
      have htimeline : (s.perform call).1.timeline = (s.timeline.perform bits call).1 :=
        congrArg Prod.fst hperform
      have hanswer : (s.perform call).2 = (s.timeline.perform bits call).2 :=
        congrArg Prod.snd hperform
      have hinUse : s.inUse = fun h => (s.timeline.records h).isSome := by
        funext h
        rw [records_timeline, Option.isSome_map]
        rfl
      have hnote : s.note L call = L.note (fun b => (bits b).2)
          (fun h => (s.timeline.records h).isSome) (s.timeline.perform bits call).2 call := by
        rw [Session.note, hs.historyBits_eq, hinUse, hanswer]
      rw [hinUse, hanswer] at hrule
      refine ih hfits ?_ hrest
      rw [htimeline, hnote]
      exact hstep hI hrule

theorem balanced_run (laws : KeepsHistory Sound) {s : Session P R} (hs : s.Fits Sound bits)
    (hbits : ∀ b, (bits b).2 ≤ 64) {size longest : Nat} {L : Ledger}
    (hbalanced : s.timeline.Balanced size longest L) {calls : List Call}
    (hreset : .reset ∉ calls) :
    (s.run calls).timeline.Balanced size longest (s.ledger L calls) := by
  have hfollows : s.Follows (fun _ _ _ call => call ≠ .reset) L calls := by
    refine s.follows_of_forall L fun call hcall _ _ _ => ?_
    rintro rfl
    exact hreset hcall
  exact laws.ledger_run (fun h hcall => h.perform hbits hcall) hs hbalanced hfollows

end KeepsHistory

end BranchPrediction
