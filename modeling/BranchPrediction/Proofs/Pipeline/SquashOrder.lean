import BranchPrediction.Proofs.Pipeline.Disorder
import BranchPrediction.Proofs.Pipeline.Firm
import BranchPrediction.Proofs.Pipeline.Retire

/-!
# Squashes in any order

Branches are fetched one after another, and then squashed in some order.  If no squash is refused,
all that is firm of the predictor is as before (`squashes_unwind`): only bits tell one order
from another, and whenever a squash is accepted, the bits in flight are those of its branch and the
older ones (`Unwinding.squash`).

Branches that insert nothing can be squashed in any order among each other.  Then the random state
is the one before the branch that was squashed last, and need not be the one before all of them
(`twoReturns_squashed_oldest_first`).
-/

namespace BranchPrediction

open SteppedPredictor HistoryKeeper SpeculativeHistory Firm

/-! ## Fetching and squashing -/

structure Fetch where
  handle : Nat
  predicted : Bool
  pc : UInt64
  isConditional : Bool
  branch : Branch
  deriving DecidableEq, Repr

def Fetch.calls (f : Fetch) : List Call :=
  (Event.fetch f.handle f.predicted f.pc f.isConditional f.branch).calls

def Fetch.squash (f : Fetch) : Call :=
  .squash f.handle

variable {P R Q : Type} [SpeculativePredictor P R Q] [SteppedPredictor P]

/-- The branches can be fetched one after another: their handles are new, and no call fails. -/
structure Session.CanFetch (s : Session P R) (fetches : List Fetch) : Prop where
  fresh : ∀ f ∈ fetches, s.records f.handle = none
  nodup : (fetches.map Fetch.handle).Nodup
  errors_eq : s.errors (fetches.flatMap Fetch.calls) = []

omit [SteppedPredictor P] in
theorem Session.CanFetch.of_prefix {s : Session P R} {first fetches : List Fetch}
    (hfetch : s.CanFetch fetches) (hinitial : first <+: fetches) : s.CanFetch first := by
  obtain ⟨second, rfl⟩ := hinitial
  obtain ⟨hfresh, hnodup, herrors⟩ := hfetch
  rw [List.map_append] at hnodup
  rw [List.flatMap_append, Session.errors_append, List.append_eq_nil_iff] at herrors
  exact ⟨fun f hf => hfresh f (List.mem_append_left second hf), (List.nodup_append.1 hnodup).1,
    herrors.1⟩

/-! ## Branches in flight -/

namespace Session

def flight (s : Session P R) (f : Fetch) : Flight R where
  handle := f.handle
  record :=
    finalize s.predictor (newRecord s.predictor f.predicted f.pc f.isConditional) f.branch.pc
  branch := f.branch

/-- The branches in flight that fetches lead to, youngest first. -/
def flights (s : Session P R) : List Fetch → List (Flight R)
  | [] => []
  | f :: fetches => (s.run f.calls).flights fetches ++ [s.flight f]

theorem flights_append (s : Session P R) (first second : List Fetch) :
    s.flights (first ++ second) =
      (s.run (first.flatMap Fetch.calls)).flights second ++ s.flights first := by
  induction first generalizing s with
  | nil => exact (List.append_nil _).symm
  | cons f first ih =>
      rw [List.cons_append, flights, ih, flights, List.append_assoc, List.flatMap_cons, run_append]

theorem flights_suffix (s : Session P R) {first fetches : List Fetch}
    (hinitial : first <+: fetches) : s.flights first <:+ s.flights fetches := by
  obtain ⟨second, rfl⟩ := hinitial
  exact ⟨_, (s.flights_append first second).symm⟩

theorem map_handle_flights (s : Session P R) (fetches : List Fetch) :
    (s.flights fetches).map Flight.handle = (fetches.map Fetch.handle).reverse := by
  induction fetches generalizing s with
  | nil => rfl
  | cons f fetches ih =>
      rw [flights, List.map_append, ih]
      exact List.reverse_cons.symm

end Session

namespace Rewinds

variable {Sound : P → Prop} {Anchored : P → R → Prop} {s : Session P R}

/-- Branches that can be fetched are in flight then, the last one on top. -/
theorem run_fetches (laws : Rewinds Sound Anchored) (hs : Sound s.predictor) {fetches : List Fetch}
    (hfetch : s.CanFetch fetches) :
    Stands Sound Anchored s (s.flights fetches) ∧
      s.run (fetches.flatMap Fetch.calls) = s.raise (s.flights fetches) := by
  induction fetches generalizing s with
  | nil => exact ⟨hs, rfl⟩
  | cons f fetches ih =>
      obtain ⟨hfresh, hnodup, herrors⟩ := hfetch
      obtain ⟨hnew, hnodup⟩ := List.nodup_cons.1 hnodup
      rw [List.flatMap_cons, Session.errors_append, List.append_eq_nil_iff] at herrors
      obtain ⟨a, rfl, hanchored, hroom, hrun⟩ := laws.run_fetch hs herrors.1
      replace hrun : s.run f.calls = s.push f.handle (s.flight f).record f.branch := hrun
      have hrest : (s.run f.calls).CanFetch fetches := by
        refine ⟨fun g hg => ?_, hnodup, herrors.2⟩
        have hne : g.handle ≠ f.handle := by
          intro heq
          exact hnew (heq ▸ List.mem_map_of_mem hg)
        rw [hrun, Session.records_push_of_ne _ hne]
        exact hfresh g (List.mem_cons_of_mem f hg)
      have hsound : Sound (s.run f.calls).predictor := laws.sound_run hs f.calls
      obtain ⟨hstands, hraise⟩ := ih hsound hrest
      rw [Session.flights]
      refine ⟨laws.stands_concat.2 ⟨⟨hs, hfresh f (by simp), hanchored, hroom⟩, ?_⟩, ?_⟩
      · exact hrun ▸ hstands
      · rw [List.flatMap_cons, Session.run_append, Session.raise_concat, hraise, hrun]
        rfl

theorem run_prefix (laws : Rewinds Sound Anchored) (hs : Sound s.predictor)
    {first fetches : List Fetch} (hfetch : s.CanFetch fetches) (hinitial : first <+: fetches) :
    s.run (first.flatMap Fetch.calls) = s.raise (s.flights first) :=
  (laws.run_fetches hs (hfetch.of_prefix hinitial)).2

theorem flights_split (laws : Rewinds Sound Anchored) (hs : Sound s.predictor)
    {older younger : List Fetch} {f : Fetch} (hfetch : s.CanFetch (older ++ f :: younger)) :
    ∃ above, s.flights (older ++ f :: younger) =
      above ++ (s.raise (s.flights older)).flight f :: s.flights older := by
  rw [Session.flights_append, laws.run_prefix hs hfetch (List.prefix_append _ _), Session.flights,
    List.append_assoc, List.singleton_append]
  exact ⟨_, rfl⟩

theorem run_squashes_raise (laws : Rewinds Sound Anchored) {flights : List (Flight R)}
    (hstands : Stands Sound Anchored s flights) :
    (s.raise flights).run (flights.map fun f => .squash f.handle) = s := by
  induction flights with
  | nil => rfl
  | cons f older ih =>
      obtain ⟨hbelow, hfresh, hanchored, hroom⟩ := hstands
      rw [List.map_cons, Session.run_cons, Session.raise_cons,
        laws.perform_squash_push hfresh (laws.sound_raise hbelow) hanchored hroom]
      exact ih hbelow

/-- Squashing all fetched branches youngest first returns to where they were fetched from. -/
theorem run_squashes (laws : Rewinds Sound Anchored) (hs : Sound s.predictor)
    {fetches : List Fetch} (hfetch : s.CanFetch fetches) :
    (s.run (fetches.flatMap Fetch.calls)).run (fetches.reverse.map Fetch.squash) = s := by
  obtain ⟨hstands, hraise⟩ := laws.run_fetches hs hfetch
  have hcalls : fetches.reverse.map Fetch.squash =
      (s.flights fetches).map fun g => .squash g.handle := by
    have hhandle := congrArg (List.map Call.squash) (s.map_handle_flights fetches)
    rw [List.map_map, List.map_reverse, List.map_map, ← List.map_reverse] at hhandle
    exact hhandle.symm
  rw [hcalls, hraise]
  exact laws.run_squashes_raise hstands

theorem records_raise (laws : Rewinds Sound Anchored) {younger older : List (Flight R)}
    {f : Flight R} (hstands : Stands Sound Anchored s (younger ++ f :: older)) :
    (s.raise (younger ++ f :: older)).records f.handle =
      some (apply (s.raise older).predictor f.record f.branch).2 := by
  obtain ⟨-, habove⟩ := laws.stands_append hstands
  rw [Session.raise_append]
  exact (Retires.handle_ne habove (Session.records_push_self _ _ _ _)).1

end Rewinds

/-! ## Bits in flight -/

/-- The number of bits that branches insert. -/
def weight {α : Type} (bits : Branch → UInt64 × Nat) (branch : α → Branch) (xs : List α) : Nat :=
  (xs.map fun x => (bits (branch x)).2).sum

section Weight

variable {α : Type} (bits : Branch → UInt64 × Nat) (branch : α → Branch)

theorem weight_cons (x : α) (xs : List α) :
    weight bits branch (x :: xs) = (bits (branch x)).2 + weight bits branch xs :=
  List.sum_cons

theorem weight_append (xs ys : List α) :
    weight bits branch (xs ++ ys) = weight bits branch xs + weight bits branch ys := by
  rw [weight, List.map_append, List.sum_append, weight, weight]

theorem weight_le_of_suffix {xs ys : List α} (hsuffix : xs <:+ ys) :
    weight bits branch xs ≤ weight bits branch ys := by
  obtain ⟨front, rfl⟩ := hsuffix
  rw [weight_append]
  omega

end Weight

theorem weight_flights (bits : Branch → UInt64 × Nat) (s : Session P R) (fetches : List Fetch) :
    weight bits Flight.branch (s.flights fetches) = weight bits Fetch.branch fetches := by
  induction fetches generalizing s with
  | nil => rfl
  | cons f fetches ih =>
      rw [Session.flights, weight_append, ih, weight_cons, Nat.add_comm]
      rfl

section Squashes

variable [HistoryKeeper P] {Sound : P → Prop} {Anchored : P → R → Prop}
  {bits : Branch → UInt64 × Nat} {s : Session P R}

namespace KeepsHistory

theorem historyBits_raise (laws : KeepsHistory Sound) (hbits : historyBits s.predictor = bits)
    (flights : List (Flight R)) : historyBits (s.raise flights).predictor = bits := by
  induction flights with
  | nil => exact hbits
  | cons f older ih => exact (laws.kept_historyBits bits).apply ih f.record f.branch

theorem history_raise_cons (laws : KeepsHistory Sound) (hbits : historyBits s.predictor = bits)
    (f : Flight R) (older : List (Flight R)) :
    history (s.raise (f :: older)).predictor =
      ((history (s.raise older).predictor).insert (bits f.branch) f.branch.pc).2 := by
  have hhistory := laws.history_apply (s.raise older).predictor f.record f.branch
  rwa [laws.historyBits_raise hbits] at hhistory

theorem size_raise (laws : KeepsHistory Sound) (hbits : historyBits s.predictor = bits)
    (flights : List (Flight R)) :
    (history (s.raise flights).predictor).register.size = (history s.predictor).register.size := by
  induction flights with
  | nil => rfl
  | cons f older ih =>
      rw [laws.history_raise_cons hbits, ← ih]
      exact congrArg Prod.fst (dimensions_insert _ (bits f.branch) f.branch.pc)

theorem inFlight_raise (laws : KeepsHistory Sound) (hbits : historyBits s.predictor = bits)
    (flights : List (Flight R)) :
    (history (s.raise flights).predictor).inFlight =
      (history s.predictor).inFlight + weight bits Flight.branch flights := by
  induction flights with
  | nil => rfl
  | cons f older ih =>
      rw [laws.history_raise_cons hbits, inFlight_insert, ih, weight_cons]
      omega

theorem position_raise (laws : KeepsHistory Sound) (hbits : historyBits s.predictor = bits)
    (flights : List (Flight R)) :
    ((history (s.raise flights).predictor).position + weight bits Flight.branch flights) %
      (history s.predictor).register.size = (history s.predictor).position := by
  induction flights with
  | nil => exact Nat.mod_eq_of_lt (history s.predictor).register.start_lt
  | cons f older ih =>
      have hmove := position_insert (history (s.raise older).predictor) (bits f.branch)
        f.branch.pc
      rw [laws.size_raise hbits] at hmove
      rw [laws.history_raise_cons hbits, weight_cons, ← Nat.add_assoc, ← Nat.mod_add_mod, hmove, ih]

theorem weight_lt (laws : KeepsHistory Sound) (hbits : historyBits s.predictor = bits)
    {flights : List (Flight R)} (hstands : Stands Sound Anchored s flights) :
    weight bits Flight.branch flights < (history s.predictor).register.size := by
  cases flights with
  | nil => exact (history s.predictor).register.size_pos
  | cons f older =>
      obtain ⟨-, -, -, hroom⟩ := hstands
      rw [laws.appendError?_eq, laws.historyBits_raise hbits] at hroom
      have hlt := lt_of_appendError? hroom
      rw [laws.size_raise hbits, laws.inFlight_raise hbits] at hlt
      rw [weight_cons]
      omega

theorem checkpoint?_raise (laws : KeepsHistory Sound) (hbits : historyBits s.predictor = bits)
    (f : Flight R) (older : List (Flight R)) :
    checkpoint? P (apply (s.raise older).predictor f.record f.branch).2 =
      some ((history (s.raise older).predictor).insert (bits f.branch) f.branch.pc).1 := by
  rw [laws.checkpoint?_applied, laws.historyBits_raise hbits]

/-- A branch is in order exactly when the bits in flight are those of it and the older ones. -/
theorem weight_eq_of_disordered? (laws : KeepsHistory Sound)
    (hbits : historyBits s.predictor = bits) {flights older : List (Flight R)}
    {f : Flight R} (hlt : weight bits Flight.branch flights < (history s.predictor).register.size)
    (hlt' : weight bits Flight.branch (f :: older) < (history s.predictor).register.size)
    (horder : (history (s.raise flights).predictor).disordered?
      (checkpoint? P (apply (s.raise older).predictor f.record f.branch).2) = none) :
    weight bits Flight.branch flights = weight bits Flight.branch (f :: older) := by
  have hsize := laws.size_raise hbits flights
  rw [laws.checkpoint?_raise hbits, disordered?_eq_none_iff, hsize] at horder
  · have hmove := position_insert (history (s.raise older).predictor) (bits f.branch) f.branch.pc
    rw [← laws.history_raise_cons hbits, laws.size_raise hbits] at hmove
    exact eq_of_mod_add_eq _ hlt hlt' (horder.trans hmove.symm)
      ((laws.position_raise hbits flights).trans (laws.position_raise hbits (f :: older)).symm)
  · rw [hsize, ← laws.size_raise hbits older]
    exact (history (s.raise older).predictor).register.start_lt

/-- A squash that is not refused undoes a contribution that is in order. -/
theorem squash_of_accepted (laws : KeepsHistory Sound) (hs : s.Fits Sound bits) {h : Nat} {r : R}
    (hrecord : s.records h = some r) (haccepted : (s.perform (.squash h)).2 = none) :
    (history s.predictor).disordered? (checkpoint? P r) = none ∧
      (s.perform (.squash h)).1 =
        ⟨(undo s.predictor r).1, Session.put s.records h none, s.committed⟩ := by
  have hr := hs.fitting hrecord
  cases hdisorder : (history s.predictor).disordered? (checkpoint? P r) with
  | some violation =>
      rw [laws.squash_of_disordered? hs hrecord hdisorder] at haccepted
      cases haccepted
  | none =>
      refine ⟨rfl, ?_⟩
      simp only [Session.perform, Session.release, hrecord, squash_eq, hr.accepted, Bool.not_true,
        Bool.false_eq_true, if_false, laws.rollbackError?_eq, hdisorder, Option.map_none]
      rfl

end KeepsHistory

/-! ## What is firm -/

variable [Firm P]

namespace KeepsFirm

/-- Branches in flight that insert nothing do not change what is firm. -/
theorem firm_raise_append (firms : KeepsFirm P) (laws : KeepsHistory Sound)
    (hbits : historyBits s.predictor = bits) {younger older : List (Flight R)}
    (hweight : weight bits Flight.branch younger = 0) :
    firm (s.raise (younger ++ older)).predictor = firm (s.raise older).predictor := by
  induction younger with
  | nil => rfl
  | cons f younger ih =>
      rw [weight_cons] at hweight
      rw [← ih (by omega)]
      refine firms.firm_apply (s.raise (younger ++ older)).predictor f.record f.branch ?_
      rw [laws.historyBits_raise hbits]
      omega

/-- What is firm depends on the bits in flight only. -/
theorem firm_raise_eq (firms : KeepsFirm P) (laws : KeepsHistory Sound)
    (hbits : historyBits s.predictor = bits) {flights first second : List (Flight R)}
    (hfirst : first <:+ flights) (hsecond : second <:+ flights)
    (hweight : weight bits Flight.branch first = weight bits Flight.branch second) :
    firm (s.raise first).predictor = firm (s.raise second).predictor := by
  obtain ⟨younger, rfl⟩ | ⟨younger, rfl⟩ := List.suffix_or_suffix_of_suffix hfirst hsecond
  · rw [weight_append] at hweight
    exact (firms.firm_raise_append laws hbits (by omega)).symm
  · rw [weight_append] at hweight
    exact firms.firm_raise_append laws hbits (by omega)

theorem firm_run_fetches (firms : KeepsFirm P) (rewinds : Rewinds Sound Anchored)
    (laws : KeepsHistory Sound) (hs : s.Fits Sound bits) {fetches : List Fetch}
    (hfetch : s.CanFetch fetches) (hweight : weight bits Fetch.branch fetches = 0) :
    firm (s.run (fetches.flatMap Fetch.calls)).predictor = firm s.predictor := by
  rw [(rewinds.run_fetches hs.sound hfetch).2]
  refine firms.firm_raise_eq laws hs.historyBits_eq List.suffix_rfl List.nil_suffix ?_
  rw [weight_flights, hweight]
  rfl

/-- Undoing a branch in flight restores what is firm, if it finds it as the branch left it. -/
theorem firm_undo_raise (firms : KeepsFirm P) (rewinds : Rewinds Sound Anchored)
    {older : List (Flight R)} {f : Flight R} (hstands : Stands Sound Anchored s (f :: older))
    {q : P} (hfirm : firm q = firm (s.raise (f :: older)).predictor) :
    firm (undo q (apply (s.raise older).predictor f.record f.branch).2).1 =
      firm (s.raise older).predictor := by
  obtain ⟨hbelow, -, hanchored, hroom⟩ := hstands
  have hundo := rewinds.undo_apply (rewinds.sound_raise hbelow) hanchored hroom
  calc firm (undo q (apply (s.raise older).predictor f.record f.branch).2).1
      = firm (undo (firm q) (apply (s.raise older).predictor f.record f.branch).2).1 :=
        (firms.firm_undo q _).symm
    _ = firm (undo (firm (apply (s.raise older).predictor f.record f.branch).1)
          (apply (s.raise older).predictor f.record f.branch).2).1 := by
        rw [hfirm]
        rfl
    _ = firm (undo (apply (s.raise older).predictor f.record f.branch).1
          (apply (s.raise older).predictor f.record f.branch).2).1 := firms.firm_undo _ _
    _ = firm (s.raise older).predictor := by rw [hundo]

end KeepsFirm

/-! ## Squashes that are not refused -/

/-- A session on the way back from fetches: the branches of `rest` have not been squashed yet. -/
structure Unwinding (bits : Branch → UInt64 × Nat) (s : Session P R) (fetches rest : List Fetch)
    (t : Session P R) : Prop where
  /-- What is firm is as after the first few fetches, with the bits of the rest in flight. -/
  level : ∃ first, first <+: fetches ∧
    firm t.predictor = firm (s.run (first.flatMap Fetch.calls)).predictor ∧
    weight bits Fetch.branch first = weight bits Fetch.branch rest
  records_eq : ∀ h, t.records h =
    if h ∈ rest.map Fetch.handle then (s.run (fetches.flatMap Fetch.calls)).records h
    else s.records h
  committed_eq : t.committed = s.committed

variable {fetches older younger rest : List Fetch} {f : Fetch} {t : Session P R}

/-- The record of a branch that has not been squashed yet is as its fetch left it. -/
theorem Unwinding.record_eq (rewinds : Rewinds Sound Anchored) (hs : s.Fits Sound bits)
    (hfetch : s.CanFetch (older ++ f :: younger))
    (hunwinding : Unwinding bits s (older ++ f :: younger) (f :: rest) t) :
    t.records f.handle = some (apply (s.raise (s.flights older)).predictor
      ((s.raise (s.flights older)).flight f).record f.branch).2 := by
  obtain ⟨hstands, hrun⟩ := rewinds.run_fetches hs.sound hfetch
  obtain ⟨above, hsplit⟩ := rewinds.flights_split hs.sound hfetch
  rw [hsplit] at hstands
  rw [hunwinding.records_eq, if_pos (by simp), hrun, hsplit]
  exact rewinds.records_raise hstands

/-- A squash that is not refused finds the bits in flight of its branch and the older ones, and
leaves those of the older ones and the random state that the branch found. -/
theorem Unwinding.squash (rewinds : Rewinds Sound Anchored) (laws : KeepsHistory Sound)
    (firms : KeepsFirm P) (hs : s.Fits Sound bits) (ht : t.Fits Sound bits)
    (hfetch : s.CanFetch (older ++ f :: younger))
    (hunwinding : Unwinding bits s (older ++ f :: younger) (f :: rest) t)
    (hnew : f.handle ∉ rest.map Fetch.handle) (haccepted : (t.perform f.squash).2 = none) :
    weight bits Fetch.branch (f :: rest) = weight bits Fetch.branch (older ++ [f]) ∧
      random (t.perform f.squash).1.predictor =
        random (s.run (older.flatMap Fetch.calls)).predictor ∧
      Unwinding bits s (older ++ f :: younger) rest (t.perform f.squash).1 := by
  have hbits := hs.historyBits_eq
  obtain ⟨horder, hperform⟩ :=
    laws.squash_of_accepted ht (hunwinding.record_eq rewinds hs hfetch) haccepted
  obtain ⟨⟨first, hfirst, hfirm, hweight⟩, hrecords, hcommitted⟩ := hunwinding
  obtain ⟨hstands, -⟩ := rewinds.run_fetches hs.sound hfetch
  obtain ⟨above, hsplit⟩ := rewinds.flights_split hs.sound hfetch
  have hbelow := s.flights_suffix hfirst
  have hfull := laws.weight_lt hbits hstands
  rw [hsplit] at hbelow hfull hstands
  have holder : s.run (older.flatMap Fetch.calls) = s.raise (s.flights older) :=
    rewinds.run_prefix hs.sound hfetch (List.prefix_append _ _)
  rw [rewinds.run_prefix hs.sound hfetch hfirst] at hfirm
  -- The write position is firm, so the check compares the bits of two stacks of flights.
  rw [← firms.history_firm, hfirm, firms.history_firm] at horder
  have hsuffix := List.suffix_append above ((s.raise (s.flights older)).flight f :: s.flights older)
  have hsame := laws.weight_eq_of_disordered? hbits
    (Nat.lt_of_le_of_lt (weight_le_of_suffix bits Flight.branch hbelow) hfull)
    (Nat.lt_of_le_of_lt (weight_le_of_suffix bits Flight.branch hsuffix) hfull) horder
  have hrest : weight bits Fetch.branch rest = weight bits Fetch.branch older := by
    rw [weight_flights, hweight, weight_cons, weight_cons, weight_flights] at hsame
    exact Nat.add_left_cancel hsame
  rw [Fetch.squash, hperform, holder]
  refine ⟨?_, firms.random_undo _ _ _ _, ⟨older, List.prefix_append _ _, ?_, hrest.symm⟩, ?_,
    hcommitted⟩
  · rw [weight_cons, hrest, weight_append, Nat.add_comm]
    rfl
  · rw [holder]
    refine firms.firm_undo_raise rewinds (rewinds.stands_append hstands).1 ?_
    rw [hfirm]
    exact firms.firm_raise_eq laws hbits hbelow hsuffix hsame
  · intro h
    by_cases hh : h = f.handle
    · rw [hh, if_neg hnew, hfetch.fresh f (by simp)]
      exact Session.put_same _ _ _
    · refine (Session.put_of_ne _ hh none).trans ?_
      simp only [hrecords, List.map_cons, List.mem_cons, hh, false_or]

theorem Unwinding.start (rewinds : Rewinds Sound Anchored) (hs : s.Fits Sound bits)
    (hfetch : s.CanFetch fetches) (hperm : rest.Perm fetches) :
    Unwinding bits s fetches rest (s.run (fetches.flatMap Fetch.calls)) := by
  obtain ⟨-, hraise⟩ := rewinds.run_fetches hs.sound hfetch
  refine ⟨⟨fetches, List.prefix_rfl, rfl, ?_⟩, fun h => ?_, ?_⟩
  · exact ((hperm.map fun f : Fetch => (bits f.branch).2).sum_nat).symm
  · split
    · rfl
    · have hnew : h ∉ (s.flights fetches).map Flight.handle := by
        rw [s.map_handle_flights, List.mem_reverse]
        intro hmem
        exact ‹h ∉ _› ((hperm.map Fetch.handle).symm.subset hmem)
      rw [hraise, Session.records_raise_of_notMem hnew]
  · rw [hraise]
    exact Session.committed_raise s _

theorem Unwinding.run (rewinds : Rewinds Sound Anchored) (laws : KeepsHistory Sound)
    (firms : KeepsFirm P) (hs : s.Fits Sound bits) (ht : t.Fits Sound bits)
    (hfetch : s.CanFetch fetches) {squashed : List Fetch} (hmem : ∀ f ∈ squashed, f ∈ fetches)
    (hnodup : ((squashed ++ rest).map Fetch.handle).Nodup)
    (hunwinding : Unwinding bits s fetches (squashed ++ rest) t)
    (haccepted : t.errors (squashed.map Fetch.squash) = []) :
    Unwinding bits s fetches rest (t.run (squashed.map Fetch.squash)) := by
  induction squashed generalizing t with
  | nil => exact hunwinding
  | cons f squashed ih =>
      rw [List.map_cons, Session.errors, List.append_eq_nil_iff, Option.toList_eq_nil_iff]
        at haccepted
      obtain ⟨hfirst, hothers⟩ := haccepted
      obtain ⟨hnew, hnodup⟩ := List.nodup_cons.1 hnodup
      obtain ⟨older, younger, rfl⟩ := List.append_of_mem (hmem f (by simp))
      obtain ⟨-, -, hnext⟩ := hunwinding.squash rewinds laws firms hs ht hfetch hnew hfirst
      exact ih (laws.perform_timeline ht f.squash).1
        (fun f' hf' => hmem f' (List.mem_cons_of_mem f hf')) hnodup hnext hothers

/-- What a squash finds and leaves, among others that are not refused. -/
theorem Unwinding.squash_at (rewinds : Rewinds Sound Anchored) (laws : KeepsHistory Sound)
    (firms : KeepsFirm P) (hs : s.Fits Sound bits) (hfetch : s.CanFetch (older ++ f :: younger))
    {squashed : List Fetch} (hperm : (squashed ++ f :: rest).Perm (older ++ f :: younger))
    (haccepted : (s.run ((older ++ f :: younger).flatMap Fetch.calls)).errors
      ((squashed ++ f :: rest).map Fetch.squash) = []) :
    weight bits Fetch.branch (f :: rest) = weight bits Fetch.branch (older ++ [f]) ∧
      random ((s.run ((older ++ f :: younger).flatMap Fetch.calls)).run
        ((squashed ++ [f]).map Fetch.squash)).predictor =
          random (s.run (older.flatMap Fetch.calls)).predictor := by
  have hfits := (laws.run_timeline hs ((older ++ f :: younger).flatMap Fetch.calls)).1
  have ht := (laws.run_timeline hfits (squashed.map Fetch.squash)).1
  have hnodup := (hperm.map Fetch.handle).nodup_iff.2 hfetch.nodup
  rw [List.map_append, Session.errors_append, List.append_eq_nil_iff] at haccepted
  obtain ⟨hbefore, hafter⟩ := haccepted
  rw [List.map_cons, Session.errors, List.append_eq_nil_iff, Option.toList_eq_nil_iff] at hafter
  have hunwinding := (Unwinding.start rewinds hs hfetch hperm).run rewinds laws firms hs hfits
    hfetch (fun f' hf' => hperm.subset (List.mem_append_left _ hf')) hnodup hbefore
  rw [List.map_append] at hnodup
  obtain ⟨hnew, -⟩ := List.nodup_cons.1 (List.nodup_append.1 hnodup).2.1
  obtain ⟨hweight, hrandom, -⟩ := hunwinding.squash rewinds laws firms hs ht hfetch hnew hafter.1
  rw [List.map_append, Session.run_append]
  exact ⟨hweight, hrandom⟩

end Squashes

/-! ## Pairs out of order -/

theorem exists_eq_of_pair_sublist {α : Type} {x y : α} {xs : List α} (hpair : [x, y].Sublist xs) :
    ∃ before between after, xs = before ++ x :: (between ++ y :: after) := by
  obtain ⟨front, back, rfl, hx, hy⟩ := List.cons_sublist_iff.1 hpair
  obtain ⟨before, between, rfl⟩ := List.append_of_mem hx
  obtain ⟨between', after, rfl⟩ := List.append_of_mem (List.singleton_sublist.1 hy)
  exact ⟨before, between ++ between', after, by simp⟩

/-- If each squash finds the bits of its branch and of those fetched before it, two branches that
are squashed in the order of their fetches insert nothing. -/
theorem Fetch.insert_nothing_of_weights {bits : Branch → UInt64 × Nat} {fetches order : List Fetch}
    (hweights : ∀ {before after older younger : List Fetch} {f : Fetch},
      order = before ++ f :: after → fetches = older ++ f :: younger →
      weight bits Fetch.branch (f :: after) = weight bits Fetch.branch (older ++ [f]))
    {f g : Fetch} (hfetched : [f, g].Sublist fetches) (hsquashed : [f, g].Sublist order) :
    (bits f.branch).2 = 0 ∧ (bits g.branch).2 = 0 := by
  obtain ⟨older, between, younger, hfetches⟩ := exists_eq_of_pair_sublist hfetched
  obtain ⟨before, between', after, horder⟩ := exists_eq_of_pair_sublist hsquashed
  have hfirst := hweights horder hfetches
  have hsecond : weight bits Fetch.branch (g :: after) =
      weight bits Fetch.branch ((older ++ f :: between) ++ [g]) := by
    refine @hweights (before ++ f :: between') after (older ++ f :: between) younger g ?_ ?_
    · rw [horder]
      simp
    · rw [hfetches]
      simp
  simp only [weight_append, weight_cons] at hfirst hsecond
  omega

/-- Lists of the same elements in which no two are in opposite orders are equal. -/
theorem eq_of_perm_of_not_inverted {α : Type} [DecidableEq α] {xs ys : List α} (hperm : xs.Perm ys)
    (hnone : ∀ x y, [y, x].Sublist ys → ¬ [x, y].Sublist xs) : xs = ys := by
  induction ys generalizing xs with
  | nil => exact hperm.eq_nil
  | cons y ys ih =>
      cases xs with
      | nil => exact absurd hperm.symm.eq_nil (by simp)
      | cons x xs =>
          by_cases heq : x = y
          · subst heq
            have hrest := ih hperm.cons_inv fun a b hys hxs =>
              hnone a b (hys.cons x) (hxs.cons x)
            rw [hrest]
          · have hx : x ∈ ys := (List.mem_cons.1 (hperm.subset (by simp))).resolve_left heq
            have hy : y ∈ xs :=
              (List.mem_cons.1 (hperm.symm.subset (by simp))).resolve_left (Ne.symm heq)
            refine absurd ?_ (hnone x y ?_)
            · exact (List.singleton_sublist.2 hy).cons_cons x
            · exact (List.singleton_sublist.2 hx).cons_cons y

/-! ## Any order of squashes -/

/-- What squashing the branches of `fetches` in the order `order`, from where they were fetched,
leaves of a session, if no squash is refused. -/
structure Session.Unwound [HistoryKeeper P] [Firm P] (s : Session P R) (fetches order : List Fetch)
    (t : Session P R) : Prop where
  firm_eq : firm t.predictor = firm s.predictor
  records_eq : t.records = s.records
  committed_eq : t.committed = s.committed
  /-- The random state is the one in which the branch was fetched that is squashed last. -/
  random_eq : ∀ {older younger squashed : List Fetch} {f : Fetch},
    fetches = older ++ f :: younger → order = squashed ++ [f] →
    random t.predictor = random (s.run (older.flatMap Fetch.calls)).predictor
  /-- The session is as before if the random state and the iteration counts are. -/
  eq_iff : t = s ↔
    random t.predictor = random s.predictor ∧ counts t.predictor = counts s.predictor
  /-- Of two branches the older one is only squashed first if both insert nothing. -/
  insert_nothing : ∀ {f g : Fetch}, [f, g].Sublist fetches → [f, g].Sublist order →
    (historyBits s.predictor f.branch).2 = 0 ∧ (historyBits s.predictor g.branch).2 = 0
  /-- If it never is for branches that insert nothing, the session is as before. -/
  eq_of_inOrder : (∀ {f g : Fetch}, [f, g].Sublist fetches →
    (historyBits s.predictor f.branch).2 = 0 → (historyBits s.predictor g.branch).2 = 0 →
    ¬ [f, g].Sublist order) → t = s

theorem KeepsFirm.unwound [HistoryKeeper P] [Firm P] {Sound : P → Prop} {Anchored : P → R → Prop}
    {bits : Branch → UInt64 × Nat} {s : Session P R} (firms : KeepsFirm P)
    (rewinds : Rewinds Sound Anchored) (laws : KeepsHistory Sound) (hs : s.Fits Sound bits)
    {fetches order : List Fetch} (hfetch : s.CanFetch fetches) (hperm : order.Perm fetches)
    (haccepted : (s.run (fetches.flatMap Fetch.calls)).errors (order.map Fetch.squash) = []) :
    s.Unwound fetches order
      ((s.run (fetches.flatMap Fetch.calls)).run (order.map Fetch.squash)) := by
  have hfits := (laws.run_timeline hs (fetches.flatMap Fetch.calls)).1
  have hend : Unwinding bits s fetches []
      ((s.run (fetches.flatMap Fetch.calls)).run (order.map Fetch.squash)) := by
    have hall : (order ++ []).Perm fetches := by rwa [List.append_nil]
    exact (Unwinding.start rewinds hs hfetch hall).run rewinds laws firms hs hfits hfetch
      (fun f hf => hperm.subset hf) ((hall.map Fetch.handle).nodup_iff.2 hfetch.nodup) haccepted
  have hstep : ∀ {squashed rest older younger : List Fetch} {f : Fetch},
      order = squashed ++ f :: rest → fetches = older ++ f :: younger →
      weight bits Fetch.branch (f :: rest) = weight bits Fetch.branch (older ++ [f]) ∧
        random ((s.run (fetches.flatMap Fetch.calls)).run
          ((squashed ++ [f]).map Fetch.squash)).predictor =
            random (s.run (older.flatMap Fetch.calls)).predictor := by
    rintro squashed rest older younger f rfl rfl
    exact Unwinding.squash_at rewinds laws firms hs hfetch hperm haccepted
  have hinverted : ∀ {f g : Fetch}, [f, g].Sublist fetches → [f, g].Sublist order →
      (historyBits s.predictor f.branch).2 = 0 ∧ (historyBits s.predictor g.branch).2 = 0 := by
    rw [hs.historyBits_eq]
    exact Fetch.insert_nothing_of_weights fun horder hfetches => (hstep horder hfetches).1
  obtain ⟨⟨first, hfirst, hfirm, hweight⟩, hrecords, hcommitted⟩ := hend
  have hfirm : firm _ = firm s.predictor := hfirm.trans
    (firms.firm_run_fetches rewinds laws hs (hfetch.of_prefix hfirst) hweight)
  refine ⟨hfirm, funext hrecords, hcommitted, ?_, ?_, hinverted, fun hnone => ?_⟩
  · rintro older younger squashed f hfetches rfl
    exact (hstep rfl hfetches).2
  · constructor
    · intro heq
      rw [heq]
      exact ⟨rfl, rfl⟩
    · rintro ⟨hrandom, hcounts⟩
      exact Session.ext (firms.eq_of_firm hfirm hrandom hcounts) (funext hrecords) hcommitted
  · have hreverse : order = fetches.reverse := by
      refine eq_of_perm_of_not_inverted (hperm.trans fetches.reverse_perm.symm) ?_
      intro f g hfetched hsquashed
      have hpair : [f, g].Sublist fetches := List.reverse_sublist.1 hfetched
      obtain ⟨hf, hg⟩ := hinverted hpair hsquashed
      exact hnone hpair hf hg hsquashed
    rw [hreverse]
    exact rewinds.run_squashes hs.sound hfetch

/-- Branches that are fetched from any state, and squashed in any order without a refusal, leave all
that is firm as before, and the whole session exactly if the random state and the iteration counts
are as before too.  They are if the branches that insert nothing are squashed youngest first. -/
theorem squashes_unwind (calls : List Call) {fetches order : List Fetch}
    (hperm : order.Perm fetches) :
    (∀ {c : TageScl.Config} {p : TageScl}, c.build = .ok p →
      let s := (Session.start p).run calls
      let fetched := s.run (fetches.flatMap Fetch.calls)
      s.CanFetch fetches → fetched.errors (order.map Fetch.squash) = [] →
        s.Unwound fetches order (fetched.run (order.map Fetch.squash))) ∧
      ∀ {c : Ittage.Config} {p : Ittage}, c.build = .ok p →
        let s := (Session.start p).run calls
        let fetched := s.run (fetches.flatMap Fetch.calls)
        s.CanFetch fetches → fetched.errors (order.map Fetch.squash) = [] →
          s.Unwound fetches order (fetched.run (order.map Fetch.squash)) := by
  constructor
  · intro c p hbuild s fetched hfetch haccepted
    have laws := TageScl.keepsHistory c
    have rewinds : Rewinds (TageScl.Whole c) TageScl.Anchored :=
      (TageScl.rewinds c).strengthen TageScl.kept_loopsShaped
    have hfits := (laws.run_timeline (TageScl.fits_build hbuild) calls).1
    exact TageScl.keepsFirm.unwound rewinds laws hfits hfetch hperm haccepted
  · intro c p hbuild s fetched hfetch haccepted
    have laws := Ittage.keepsHistory c
    have hfits := (laws.run_timeline (Ittage.fits_build hbuild) calls).1
    exact Ittage.keepsFirm.unwound (Ittage.rewinds c) laws hfits hfetch hperm haccepted

def twoReturns : List Fetch :=
  [⟨0, true, 4, false, ⟨4, .procedureReturn, .taken, 64⟩⟩,
    ⟨1, true, 8, false, ⟨8, .procedureReturn, .taken, 32⟩⟩]

/-- For TAGE-SC-L they insert one bit each and are squashed youngest first; for ITTAGE they insert
nothing, and any order is accepted. -/
theorem twoReturns_unwind :
    (Session.start (TageScl.small none)).Unwound twoReturns twoReturns.reverse
        (((Session.start (TageScl.small none)).run (twoReturns.flatMap Fetch.calls)).run
          (twoReturns.reverse.map Fetch.squash)) ∧
      (Session.start Ittage.small).Unwound twoReturns twoReturns
        (((Session.start Ittage.small).run (twoReturns.flatMap Fetch.calls)).run
          (twoReturns.map Fetch.squash)) := by
  have hbuildTageScl : (TageScl.smallConfig none).build = .ok (TageScl.small none) := rfl
  have hbuildIttage : Ittage.smallConfig.build = .ok Ittage.small := rfl
  obtain ⟨htageScl, -⟩ := squashes_unwind [] twoReturns.reverse_perm
  obtain ⟨-, hittage⟩ := squashes_unwind [] (List.Perm.refl twoReturns)
  constructor
  · exact htageScl hbuildTageScl ⟨fun _ _ => rfl, by decide, by decide +kernel⟩
      (by decide +kernel)
  · exact hittage hbuildIttage ⟨fun _ _ => rfl, by decide, by decide +kernel⟩ (by decide +kernel)

/-- The older of two returns may be squashed first, but the random state is then the one before the
younger one. -/
theorem twoReturns_squashed_oldest_first :
    Ittage.smallConfig.build = .ok Ittage.small ∧
      (Session.start Ittage.small).CanFetch twoReturns ∧
      ((Session.start Ittage.small).run (twoReturns.flatMap Fetch.calls)).errors
        (twoReturns.map Fetch.squash) = [] ∧
      (((Session.start Ittage.small).run (twoReturns.flatMap Fetch.calls)).run
        (twoReturns.map Fetch.squash)).predictor.random ≠ Ittage.small.random := by
  refine ⟨rfl, ⟨fun _ _ => rfl, by decide, ?_⟩, ?_, ?_⟩
  · decide +kernel
  · decide +kernel
  · decide +kernel

end BranchPrediction
