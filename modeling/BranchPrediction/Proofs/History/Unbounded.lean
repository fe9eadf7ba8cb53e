import BranchPrediction.Proofs.History.Journal

/-!
# The circular register against an unbounded history

While contributions are taken back youngest first, the register of a speculative history holds the
newest bits of an unbounded sequence: the bits of all insertions that were not taken back, newest
first, followed by zeros.  This holds for every cell and not only for the window that the
predictors read, however often the insertions went around the circle and whenever they were
retired.

The invariant is `Stacked`.  It rebuilds register and path from the surviving insertions, oldest
first, and says of each that its checkpoint is the one that its append answered on the state built
from those below it.  A rollback of the youngest one therefore returns to the state below, with
every overwritten cell written back.
-/

namespace BranchPrediction

open SpeculativeHistory

/-! ## One insertion -/

def noViews : Array FoldedHistory :=
  #[]

theorem inStep_noViews (r : HistoryRegister) : InStep r noViews := by
  intro f hf
  cases hf

namespace Insertion

/-- The inserted bits, newest first. -/
def inserted (i : Insertion) : List Bool :=
  ((List.range i.count).map (bitOf i.bits)).reverse

def registerAfter (i : Insertion) (r : HistoryRegister) : HistoryRegister :=
  (pushBits i.bits i.count r noViews).2.1

def pathAfter (i : Insertion) (path : PathHistory) : PathHistory :=
  if i.count = 0 then path else path.extend i.pc

/-- The checkpoint of the insertion on a register and a path. -/
def checkpointOn (i : Insertion) (r : HistoryRegister) (path : PathHistory) : Checkpoint :=
  ⟨r.start, i.count, (pushBits i.bits i.count r noViews).1, path⟩

end Insertion

/-- The register holds these bits, newest first, followed by zeros. -/
def Reads (r : HistoryRegister) (bits : List Bool) : Prop :=
  ∀ age, age < r.size → r.bit age = bits.getD age false

theorem reads_push {r : HistoryRegister} {bits : List Bool} (h : Reads r bits) (b : Bool) :
    Reads (r.push b) (b :: bits) := by
  intro age hage
  rw [HistoryRegister.size_push] at hage
  cases age with
  | zero => simpa using r.bit_push_zero b
  | succ age =>
      rw [r.bit_push_succ b hage, h age (by omega)]
      rfl

theorem reads_registerAfter {r : HistoryRegister} {bits : List Bool} (h : Reads r bits)
    (i : Insertion) : Reads (i.registerAfter r) (i.inserted ++ bits) := by
  rcases i with ⟨word, count, pc, checkpoint⟩
  simp only [Insertion.registerAfter, Insertion.inserted]
  induction count with
  | zero => exact h
  | succ count ih =>
      have hlist : ((List.range (count + 1)).map (bitOf word)).reverse ++ bits =
          bitOf word count :: (((List.range count).map (bitOf word)).reverse ++ bits) := by
        simp [List.range_succ]
      rw [hlist]
      exact reads_push ih (bitOf word count)

/-- The write position from which `count` cells lead back to cell 0. -/
theorem eq_neg_emod {start count size : Nat} (hlt : start < size)
    (hback : (start + count) % size = 0) : (start : Int) = (-(count : Int)) % size := by
  have hsum : ((start : Int) - -(count : Int)) % size = 0 := by
    rw [Int.sub_neg]
    exact_mod_cast hback
  have hself : (start : Int) % size = start := Int.emod_eq_of_lt (by omega) (by omega)
  rw [← Int.emod_eq_emod_iff_emod_sub_eq_zero.2 hsum, hself]

/-! ## Insertions on top of one another -/

/-- Register and path are what these insertions, youngest first, make of an origin, and each of
them carries the checkpoint of its append. -/
inductive Stacked (origin : SpeculativeHistory) :
    List Insertion → HistoryRegister → PathHistory → Prop
  | origin : Stacked origin [] origin.register origin.path
  | insert {older : List Insertion} {r : HistoryRegister} {path : PathHistory} (i : Insertion)
      (below : Stacked origin older r path) (hcount : i.count ≤ 64)
      (hcheckpoint : i.checkpoint = i.checkpointOn r path) :
      Stacked origin (i :: older) (i.registerAfter r) (i.pathAfter path)

namespace Stacked

variable {origin : SpeculativeHistory} {survivors : List Insertion} {r : HistoryRegister}
  {path : PathHistory}

theorem size_eq (h : Stacked origin survivors r path) : r.size = origin.register.size := by
  induction h with
  | origin => rfl
  | insert i below hcount hcheckpoint ih =>
      rw [← ih]
      exact size_pushBits i.bits i.count _ noViews

/-- Every cell holds a surviving bit, or a zero once there are none left. -/
theorem reads (h : Stacked origin survivors r path) (horigin : Reads origin.register []) :
    Reads r (survivors.flatMap Insertion.inserted) := by
  induction h with
  | origin => exact horigin
  | insert i below hcount hcheckpoint ih =>
      rw [List.flatMap_cons]
      exact reads_registerAfter ih i

/-- From the write position the surviving bits lead back to the origin, around the circle. -/
theorem start_add_length (h : Stacked origin survivors r path) :
    (r.start + (survivors.flatMap Insertion.inserted).length) % origin.register.size =
      origin.register.start := by
  induction h with
  | origin => exact Nat.mod_eq_of_lt origin.register.start_lt
  | @insert older r path i below hcount hcheckpoint ih =>
      have hback := start_pushBits i.bits i.count r noViews
      have hlength : i.inserted.length = i.count := by simp [Insertion.inserted]
      rw [List.flatMap_cons, List.length_append, hlength, ← Nat.add_assoc, ← Nat.mod_add_mod,
        ← below.size_eq]
      change ((i.registerAfter r).start + i.count) % r.size = r.start at hback
      rw [hback, below.size_eq, ih]

theorem path_eq (h : Stacked origin survivors r path) :
    path = survivors.foldr Insertion.pathAfter origin.path := by
  induction h with
  | origin => rfl
  | insert i below hcount hcheckpoint ih => rw [List.foldr_cons, ← ih]

/-- The youngest insertion is always in order. -/
theorem disorder?_eq_none {i : Insertion} {older : List Insertion} {h : SpeculativeHistory}
    (hstacked : Stacked origin (i :: older) h.register h.path) :
    h.disorder? i.checkpoint = none := by
  obtain ⟨register, path, longest, inFlight⟩ := h
  cases hstacked with
  | @insert _ r path _ below hcount hcheckpoint =>
      have hsize : (i.registerAfter r).size = r.size := size_pushBits i.bits i.count r noViews
      have hlt : (i.registerAfter r).start < r.size := by
        rw [← hsize]
        exact (i.registerAfter r).start_lt
      apply if_pos
      change (i.registerAfter r).start = i.checkpoint.finish (i.registerAfter r).size
      rw [hsize, hcheckpoint, Checkpoint.eq_finish_iff hlt r.start_lt]
      exact start_pushBits i.bits i.count r noViews

end Stacked

namespace Journal

variable {α : Type}

/-- The insertions that were not taken back, youngest first. -/
def surviving (j : Journal α) : List Insertion :=
  j.applied.filterMap (j.made[·]?)

/-- The bits that were not taken back, newest first. -/
def survivingBits (j : Journal α) : List Bool :=
  j.surviving.flatMap Insertion.inserted

/-- The path of the insertions that were not taken back and inserted at least one bit. -/
def survivingPath (j : Journal α) (pathBits : Nat) : PathHistory :=
  j.surviving.foldr Insertion.pathAfter (.empty pathBits)

/-- Register and path are stacked from the survivors, and these are among the notes. -/
structure Layered (origin : SpeculativeHistory) (j : Journal α) : Prop where
  stacked : Stacked origin j.surviving j.history.register j.history.path
  noted : ∀ number ∈ j.applied, number < j.made.length

variable {origin : SpeculativeHistory} {j : Journal α}

theorem Layered.surviving_eq_cons (h : Layered origin j) {number : Nat} {older : List Nat}
    (happlied : j.applied = number :: older) :
    ∃ i, j.made[number]? = some i ∧ j.surviving = i :: older.filterMap (j.made[·]?) := by
  have hlt : number < j.made.length := h.noted number (by simp [happlied])
  refine ⟨j.made[number], List.getElem?_eq_getElem hlt, ?_⟩
  rw [surviving, happlied, List.filterMap_cons, List.getElem?_eq_getElem hlt]

theorem layered_start (origin : SpeculativeHistory) (views : α) :
    Layered origin (start origin views) :=
  ⟨.origin, by simp [start]⟩

theorem layered_retire (h : Layered origin j) (number : Nat) :
    Layered origin (j.retire number) := by
  unfold retire
  split
  · exact h
  · exact ⟨h.stacked, h.noted⟩

variable [HistoryView α]

theorem layered_append (h : Layered origin j) (bits : UInt64) (count : Nat) (pc : UInt64) :
    Layered origin (j.append bits count pc) := by
  cases herror : j.history.appendError? count with
  | some error =>
      simp only [append, herror]
      exact h
  | none =>
      have hcount : count ≤ 64 := count_le_of_appendError? herror
      obtain ⟨history, views, made, applied⟩ := j
      obtain ⟨register, path, longest, inFlight⟩ := history
      obtain ⟨hsaved, hregister⟩ := pushBits_congr bits count register views noViews
      have hkept : applied.filterMap
          ((made ++ [⟨bits, count, pc, ⟨register.start, count,
            (pushBits bits count register views).1, path⟩⟩])[·]?) =
          applied.filterMap (made[·]?) := by
        apply List.filterMap_congr
        intro number hnumber
        exact List.getElem?_append_left (h.noted number hnumber)
      simp only [append, herror]
      constructor
      · simp only [surviving, SpeculativeHistory.append, List.filterMap_cons,
          List.getElem?_concat_length, hkept, hregister]
        exact Stacked.insert ⟨bits, count, pc, _⟩ h.stacked hcount (by
          simp only [Insertion.checkpointOn, hsaved])
      · intro number hnumber
        simp only [List.length_append, List.length_singleton]
        rcases List.mem_cons.1 hnumber with rfl | hmem
        · exact Nat.lt_succ_self _
        · have := h.noted number hmem
          change number < made.length at this
          omega

theorem layered_rollback (h : Layered origin j) {number : Nat}
    (hyoungest : j.applied.head? = some number) : Layered origin (j.rollback number) := by
  obtain ⟨older, happlied⟩ := List.head?_eq_some_iff.1 hyoungest
  obtain ⟨i, hmade, hsurviving⟩ := h.surviving_eq_cons happlied
  have hstacked := h.stacked
  rw [hsurviving] at hstacked
  have horder := hstacked.disorder?_eq_none
  obtain ⟨history, views, made, applied⟩ := j
  obtain ⟨register, path, longest, inFlight⟩ := history
  simp only at happlied hmade hstacked
  simp only [rollback, hmade, horder, happlied, List.erase_cons_head]
  cases hstacked with
  | @insert _ r path _ below hcount hcheckpoint =>
      have hundo : (unpushBits i.checkpoint.overwritten i.checkpoint.count
          (i.registerAfter r) views).1 = r := by
        rw [hcheckpoint, unpushBits_congr _ _ _ views
          (pushBits i.bits i.count r noViews).2.2]
        exact congrArg Prod.fst
          (unpushBits_pushBits i.bits hcount (inStep_noViews r) fun _ _ => rfl)
      constructor
      · simp only [surviving, SpeculativeHistory.rollback, hundo]
        rw [hcheckpoint]
        exact below
      · intro older hmem
        exact h.noted older (by simp [happlied, hmem])

variable [FoldFamily α]

/-- A rollback takes back the youngest insertion still applied, and nothing is forgotten. -/
def InTurn (j : Journal α) : HistoryCall → Prop
  | .append _ _ _ => True
  | .rollback number => j.applied.head? = some number
  | .retire _ => True
  | .clear => False

/-- Every call of a run comes in turn. -/
def InOrder (j : Journal α) : List HistoryCall → Prop
  | [] => True
  | call :: calls => j.InTurn call ∧ (j.perform call).InOrder calls

theorem layered_perform (h : Layered origin j) {call : HistoryCall} (hturn : j.InTurn call) :
    Layered origin (j.perform call) := by
  cases call with
  | append bits count pc => exact layered_append h bits count pc
  | rollback number => exact layered_rollback h hturn
  | retire number => exact layered_retire h number
  | clear => exact hturn.elim

theorem layered_run (h : Layered origin j) {calls : List HistoryCall} (hcalls : j.InOrder calls) :
    Layered origin (j.run calls) := by
  induction calls generalizing j with
  | nil => exact h
  | cons call calls ih => exact ih (layered_perform h hcalls.1) hcalls.2

/-- As long as contributions are taken back youngest first, the register holds the surviving bits,
newest first and followed by zeros, in every one of its cells; the write position has moved back
by their number; the path is that of the survivors; and the youngest can be taken back. -/
theorem run_holds_surviving_bits {size pathBits longest : Nat} {h : SpeculativeHistory}
    (hcreate : create size pathBits longest = .ok h) (views : α) {calls : List HistoryCall}
    (hcalls : (start h views).InOrder calls) :
    let j := (start h views).run calls
    (∀ age, age < size → j.history.register.bit age = j.survivingBits.getD age false) ∧
      (j.history.register.start : Int) = (-(j.survivingBits.length : Int)) % size ∧
      j.history.path = j.survivingPath pathBits ∧
      ∀ number, j.applied.head? = some number →
        ∃ i, j.made[number]? = some i ∧ j.history.disorder? i.checkpoint = none := by
  intro j
  obtain ⟨-, hsize, rfl⟩ := create_eq_ok hcreate
  have hlayered := layered_run (layered_start _ views) hcalls
  have hregister := hlayered.stacked.size_eq
  change j.history.register.size = (HistoryRegister.zeros size hsize).size at hregister
  rw [HistoryRegister.size_zeros] at hregister
  refine ⟨?_, ?_, hlayered.stacked.path_eq, ?_⟩
  · intro age hage
    refine hlayered.stacked.reads ?_ age (by rw [hregister]; exact hage)
    intro age _
    rw [HistoryRegister.bit_zeros]
    rfl
  · have hback := hlayered.stacked.start_add_length
    simp only [HistoryRegister.size_zeros] at hback
    have hlt : j.history.register.start < j.history.register.size := j.history.register.start_lt
    exact eq_neg_emod (by omega) hback
  · intro number hyoungest
    obtain ⟨older, happlied⟩ := List.head?_eq_some_iff.1 hyoungest
    obtain ⟨i, hmade, hsurviving⟩ := hlayered.surviving_eq_cons happlied
    refine ⟨i, hmade, ?_⟩
    have hstacked := hlayered.stacked
    rw [hsurviving] at hstacked
    exact hstacked.disorder?_eq_none

/-- Two insertions that fill a register of four cells, a third one over the first, which is taken
back again, and a fourth one. -/
def aroundTheCircle : List HistoryCall :=
  [.append 3 2 4, .retire 0, .append 2 2 0, .retire 1, .append 0 2 4, .rollback 2, .append 1 1 4]

theorem aroundTheCircle_holds_surviving_bits :
    ∃ h, create 4 3 1 = .ok h ∧ (start h noViews).InOrder aroundTheCircle ∧
      ((start h noViews).run aroundTheCircle).survivingBits = [true, true, false, true, true] ∧
      ∀ age, age < 4 → ((start h noViews).run aroundTheCircle).history.register.bit age =
        ((start h noViews).run aroundTheCircle).survivingBits.getD age false := by
  have hcreate : create 4 3 1 = .ok ⟨.zeros 4 (by decide), .empty 3, 1, 0⟩ := rfl
  have hcalls : (start ⟨.zeros 4 (by decide), .empty 3, 1, 0⟩ noViews).InOrder
      aroundTheCircle := ⟨trivial, trivial, trivial, trivial, trivial, rfl, trivial, trivial⟩
  exact ⟨_, hcreate, hcalls, rfl, (run_holds_surviving_bits hcreate noViews hcalls).1⟩

end Journal

end BranchPrediction
