import BranchPrediction.Proofs.Learning.Layout
import BranchPrediction.Proofs.Pipeline.Folds
import BranchPrediction.Proofs.Pipeline.Keepers

/-!
# What the slots of a branch depend on

Index and tag of a branch in a tagged table are hashes of its address, of three folds and of a slice
of the path.  The folds hold the folds of their window (`folds_hold_windows`), and the slice is no
longer than the window.  So whatever two runs have done, and whatever the tables have learned, two
predictors that agree in the newest bits that a table reads give a branch the same slot there
(`slots_eq_of_agree`).
-/

namespace BranchPrediction

/-! ## Hashes -/

/-- Registers that agree in the window have the same fold of it. -/
theorem HistoryRegister.fold_congr {r r' : HistoryRegister} {window : Nat}
    (hbits : ∀ age, age < window → r.bit age = r'.bit age) (width : Nat) :
    r.fold window width = r'.fold window width := by
  unfold fold
  split
  · rfl
  · refine List.foldl_ext _ _ _ fun word age hage => ?_
    rw [hbits age (List.mem_range.1 hage)]

theorem PathHistory.newest_congr {path path' : PathHistory} {pathBits n : Nat}
    (hwidth : pathBits < 64) (hpath : path.bits = pathBits) (hpath' : path'.bits = pathBits)
    (hbits : ∀ place, place < min n pathBits →
      wordBit path.value place = wordBit path'.value place) :
    path.newest n = path'.newest n := by
  apply eq_of_wordBit_eq
  intro place _
  rw [newest, newest, hpath, hpath', wordBit_and, wordBit_and, wordBit_lowMask (by omega)]
  by_cases hplace : place < min n pathBits
  · rw [hbits place hplace]
  · simp [hplace]

namespace TaggedTable

variable {P P' : Type}

/-- Tables of one shape and place, with folds of the same values, hash alike. -/
theorem slot_congr {t : TaggedTable P} {t' : TaggedTable P'} {path path' : PathHistory}
    (hplace : t.place = t'.place) (hindex : t.indexFold.value = t'.indexFold.value)
    (htag : t.tagFold.value = t'.tagFold.value)
    (hnarrow : t.narrowFold.value = t'.narrowFold.value)
    (hslice : path.newest t.shape.historyLength = path'.newest t.shape.historyLength)
    (pc : UInt64) : t.slot pc path = t'.slot pc path' := by
  obtain ⟨hshape, hbank⟩ := Prod.mk.inj hplace
  simp only [slot, index, tag, hashShift, hslice, hindex, htag, hnarrow]
  simp only [hshape, hbank]

theorem slot_lt {t : TaggedTable P} (hlogSize : t.shape.logSize < 64)
    (htagBits : t.shape.tagBits < 64) (pc : UInt64) (path : PathHistory) :
    (t.slot pc path).index < 2 ^ t.shape.logSize ∧
      (t.slot pc path).tag < 2 ^ t.shape.tagBits := by
  constructor
  · exact toNat_and_lowMask_lt _ hlogSize
  · refine Nat.lt_of_le_of_lt ?_
      (toNat_and_lowMask_lt (pc ^^^ t.tagFold.value ^^^ (t.narrowFold.value <<< 1)) htagBits)
    simp only [slot, tag, UInt64.toNat_toUInt32]
    exact Nat.mod_le _ _

end TaggedTable

/-! ## One ladder -/

/-- The two histories agree in the newest `window` bits, and their paths in the newest `places`. -/
structure SpeculativeHistory.Agree (window places : Nat) (h h' : SpeculativeHistory) : Prop where
  bit_eq : ∀ age, age < window → h.register.bit age = h'.register.bit age
  path_eq : ∀ place, place < places → wordBit h.path.value place = wordBit h'.path.value place

namespace Ladder

variable {P P' : Type}

/-- A ladder over its history: the tables stand as configured, their folds hold the register's
folds, and the path has the configured width. -/
structure Hashes (c : Config) (h : SpeculativeHistory) (l : Ladder P) : Prop where
  layout_eq : l.layout = c.layout
  foldsHold : l.FoldsHold h.register c
  pathBits_eq : h.path.bits = c.pathBits

theorem Hashes.exists_table {c : Config} {h : SpeculativeHistory} {l : Ladder P}
    (hashes : l.Hashes c h) {i : Nat} {shape : TableShape} (hshape : c.tables[i]? = some shape) :
    ∃ t, l.tables[i]? = some t ∧ t.place = (shape, i) ∧ t.FoldsHold h.register shape := by
  obtain ⟨t, ht, hplace⟩ := exists_table_of_layout hashes.layout_eq hshape
  refine ⟨t, ht, hplace, ?_⟩
  obtain ⟨hi, rfl⟩ := List.getElem?_eq_some_iff.1 hshape
  obtain ⟨hi', rfl⟩ := Array.getElem?_eq_some_iff.1 ht
  exact hashes.foldsHold.get hi hi'

/-- Ladders of one configuration over histories that agree in what a table reads have the same slot
in that table, and it is in range. -/
theorem Hashes.slots_eq {c : Config} (hvalid : c.validate = .ok ()) {h h' : SpeculativeHistory}
    {l : Ladder P} {l' : Ladder P'} (hashes : l.Hashes c h) (hashes' : l'.Hashes c h') {i : Nat}
    {shape : TableShape} (hshape : c.tables[i]? = some shape)
    (hagree : h.Agree shape.historyLength (min shape.historyLength c.pathBits) h') (pc : UInt64) :
    ∃ slot, (l.slots pc h.path)[i]? = some slot ∧ (l'.slots pc h'.path)[i]? = some slot ∧
      slot.index < 2 ^ shape.logSize ∧ slot.tag < 2 ^ shape.tagBits := by
  obtain ⟨t, ht, hplace, hfolds⟩ := hashes.exists_table hshape
  obtain ⟨t', ht', hplace', hfolds'⟩ := hashes'.exists_table hshape
  obtain ⟨hlogSize, htagBits⟩ :=
    Config.widths_of_validate hvalid shape (List.mem_of_getElem? hshape)
  obtain ⟨hpathBits, -⟩ := Config.path_and_buffer_of_validate hvalid
  have hvalue := fun width => HistoryRegister.fold_congr hagree.bit_eq width
  obtain ⟨rfl, rfl⟩ := Prod.mk.inj hplace
  have hslot : t.slot pc h.path = t'.slot pc h'.path := by
    -- Each fold is a function of the window alone, whatever its history of updates and undos.
    apply TaggedTable.slot_congr (hplace.trans hplace'.symm)
    · rw [hfolds.index.value_eq, hfolds'.index.value_eq, hvalue]
    · rw [hfolds.tag.value_eq, hfolds'.tag.value_eq, hvalue]
    · rw [hfolds.narrow.value_eq, hfolds'.narrow.value_eq, hvalue]
    · exact PathHistory.newest_congr hpathBits hashes.pathBits_eq hashes'.pathBits_eq
        hagree.path_eq
  refine ⟨t.slot pc h.path, ?_, ?_, t.slot_lt (by omega) (by omega) pc h.path⟩
  · rw [slots, Array.getElem?_map, ht, Option.map_some]
  · rw [slots, Array.getElem?_map, ht', Option.map_some, hslot]

end Ladder

/-! ## The width of the path -/

namespace SpeculativeHistory

variable {h : SpeculativeHistory} {c? : Option Checkpoint} {n : Nat}

theorem pathBits_insert (h : SpeculativeHistory) (bits : UInt64 × Nat) (pc : UInt64) :
    (h.insert bits pc).2.path.bits = h.path.bits := by
  rcases h with ⟨register, path, longest, inFlight⟩
  simp only [insert, append]
  split
  · rfl
  · rfl

theorem pathBits_undone (hpath : h.path.bits = n) (hsaved : ∀ c, c? = some c → c.path.bits = n) :
    (h.undone c?).path.bits = n := by
  cases c? with
  | none => exact hpath
  | some c => exact hsaved c rfl

theorem pathBits_revise (hpath : h.path.bits = n) (hsaved : ∀ c, c? = some c → c.path.bits = n)
    (bits : UInt64 × Nat) (pc : UInt64) :
    (h.revise c? bits pc).1.path.bits = n ∧
      ∀ c, (h.revise c? bits pc).2.1 = some c → c.path.bits = n := by
  have hundone := pathBits_undone hpath hsaved
  unfold revise
  split
  · exact ⟨hpath, hsaved⟩
  · split
    · exact ⟨hundone, by simp⟩
    · refine ⟨(pathBits_insert _ bits pc).trans hundone, ?_⟩
      intro c hc
      rw [← Option.some.inj hc]
      exact hundone

theorem pathBits_settle (hpath : h.path.bits = n) (c? : Option Checkpoint) (bits : UInt64 × Nat)
    (pc : UInt64) : (h.settle c? bits pc).1.path.bits = n := by
  unfold settle
  split
  · exact hpath
  · split
    · exact hpath
    · exact (pathBits_insert h bits pc).trans hpath

theorem pathBits_withdraw (hpath : h.path.bits = n)
    (hsaved : ∀ c, c? = some c → c.path.bits = n) : (h.withdraw c?).1.path.bits = n := by
  unfold withdraw
  split
  · exact hpath
  · exact pathBits_undone hpath hsaved

end SpeculativeHistory

namespace Timeline

/-- The path has `n` bits, and so has every saved one. -/
structure PathBits (n : Nat) (t : Timeline) : Prop where
  path : t.history.path.bits = n
  saved : ∀ h c? c, t.records h = some c? → c? = some c → c.path.bits = n

theorem PathBits.put {n : Nat} {t : Timeline} (ht : t.PathBits n) {history : SpeculativeHistory}
    (hpath : history.path.bits = n) (h : Nat) {r? : Option (Option Checkpoint)}
    (hsaved : ∀ c? c, r? = some c? → c? = some c → c.path.bits = n) :
    PathBits n ⟨history, Session.put t.records h r?⟩ := by
  refine ⟨hpath, fun k c? c hrecord hc => ?_⟩
  change Session.put t.records h r? k = some c? at hrecord
  by_cases hk : k = h
  · rw [hk, Session.put_same] at hrecord
    exact hsaved c? c hrecord hc
  · rw [Session.put_of_ne _ hk] at hrecord
    exact ht.saved k c? c hrecord hc

theorem PathBits.perform {n : Nat} {t : Timeline} (ht : t.PathBits n)
    (bits : Branch → UInt64 × Nat) (call : Call) : (t.perform bits call).1.PathBits n := by
  have hrevise : ∀ (h : Nat) (b : Branch), (t.perform bits (.update h b)).1.PathBits n := by
    intro h b
    simp only [Timeline.perform]
    split
    · exact ht
    · next c? hrecord =>
        obtain ⟨hpath, hsaved⟩ := SpeculativeHistory.pathBits_revise ht.path
          (fun c hc => ht.saved h c? c hrecord hc) (bits b) b.pc
        refine ht.put hpath h fun c?' c hput hc => ?_
        rw [← Option.some.inj hput] at hc
        exact hsaved c hc
  have hcreate : ∀ h : Nat, PathBits n ⟨t.history, Session.put t.records h (some none)⟩ := by
    intro h
    refine ht.put ht.path h fun c? c hput hc => ?_
    rw [← Option.some.inj hput] at hc
    cases hc
  cases call with
  | predict h pc isConditional => exact hcreate h
  | placeholder h pc isConditional => exact hcreate h
  | update h b => exact hrevise h b
  | repair h b => exact hrevise h b
  | commit h b =>
      simp only [Timeline.perform]
      split
      · exact ht
      · exact ht.put (SpeculativeHistory.pathBits_settle ht.path _ _ _) h (by simp)
  | squash h =>
      simp only [Timeline.perform]
      split
      · exact ht
      · next c? hrecord =>
          exact ht.put (SpeculativeHistory.pathBits_withdraw ht.path
            fun c hc => ht.saved h c? c hrecord hc) h (by simp)
  | reset => exact ⟨ht.path, ht.saved⟩

theorem PathBits.run {n : Nat} {t : Timeline} (ht : t.PathBits n)
    (bits : Branch → UInt64 × Nat) (calls : List Call) : (t.run bits calls).PathBits n := by
  induction calls generalizing t with
  | nil => exact ht
  | cons call calls ih => exact ih (ht.perform bits call)

end Timeline

/-- Along the session of a predictor whose history was just created, the path has the width that
it was created with. -/
theorem KeepsHistory.pathBits_run {P R Q : Type} [SpeculativePredictor P R Q] [SteppedPredictor P]
    [HistoryKeeper P] {Sound : P → Prop} (laws : KeepsHistory Sound)
    {bits : Branch → UInt64 × Nat} {p : P} (hfits : (Session.start p).Fits Sound bits)
    {size pathBits longest : Nat}
    (hcreate : SpeculativeHistory.create size pathBits longest = .ok (HistoryKeeper.history p))
    (calls : List Call) :
    (HistoryKeeper.history ((Session.start p).run calls).predictor).path.bits = pathBits := by
  obtain ⟨-, hsize, hhistory⟩ := SpeculativeHistory.create_eq_ok hcreate
  have hstart : (Session.timeline (Session.start p)).PathBits pathBits := by
    refine ⟨?_, fun h c? c hrecord _ => by cases hrecord⟩
    change (HistoryKeeper.history p).path.bits = pathBits
    rw [hhistory]
    rfl
  have hrun := (laws.run_timeline hfits calls).2
  have hpath := (hstart.run bits calls).path
  rwa [← hrun] at hpath

/-! ## Both predictors -/

open SpeculativeHistory

theorem TageScl.kept_layout (c : Ladder.Config) :
    Kept fun p : TageScl => p.tage.ladder.layout = c.layout where
  apply {p} h r b := by
    obtain ⟨g, -, hviews⟩ : ∃ g, KeepsShape g ∧ (p.appended b).2.2 = mapFolds g p.views :=
      exists_append_views _ _ _ _ _
    have htage : (apply p r b).1.tage = mapFolds g p.tage := by
      rw [apply_eq]
      exact congrArg Prod.fst hviews
    change (apply p r b).1.tage.ladder.layout = c.layout
    rw [htage, ← h]
    exact p.tage.ladder.layout_mapFolds g
  undo {p} h r := by
    change (undo p r).1.tage.ladder.layout = c.layout
    cases hc : r.contribution? with
    | none => rwa [undo_of_none p hc]
    | some contribution =>
        obtain ⟨g, -, hviews⟩ := exists_rollback_views p.history contribution.checkpoint p.views
        have htage : (undo p r).1.tage = mapFolds g p.tage := by
          rw [undo_eq p hc]
          exact congrArg Prod.fst hviews
        rw [htage, ← h]
        exact p.tage.ladder.layout_mapFolds g
  conclude {p} h r b := by
    change (conclude p r b).tage.ladder.layout = c.layout
    rw [conclude_eq, ← h]
    simp only [concluded]
    split
    · exact p.tage.layout_commit _ _ _ _
    · rfl
  countRepair h := h
  reset {p} h := by
    rcases p with ⟨config, tage, loops?, corrector?, history, random, stats⟩
    exact tage.ladder.layout_reset.trans h

theorem TageScl.hashes_run {c : Config} {p : TageScl} (hbuild : c.build = .ok p)
    (calls : List Call) :
    let q := ((Session.start p).run calls).predictor
    q.tage.ladder.Hashes c.ladder q.history := by
  obtain ⟨-, -, hcreate⟩ := build_eq_ok hbuild
  have hreachable := Session.reachable_run (s := Session.start p) .origin calls
  refine ⟨(kept_layout c.ladder).reachable ?_ hreachable, ?_,
    (keepsHistory c).pathBits_run (fits_build hbuild) hcreate calls⟩
  · obtain ⟨-, -, history, -, rfl⟩ := exists_of_build hbuild
    exact Ladder.layout_blank c.ladder
  · exact ((kept_sound c).reachable (sound_build hbuild).1 hreachable).foldsHold.tage

theorem Ittage.kept_layout (c : Ladder.Config) :
    Kept fun p : Ittage => p.ladder.layout = c.layout where
  apply {p} h r b := by
    obtain ⟨g, -, hladder⟩ : ∃ g, KeepsShape g ∧ (p.appended b).2.2 = mapFolds g p.ladder :=
      exists_append_views _ _ _ _ _
    change (apply p r b).1.ladder.layout = c.layout
    rw [apply_eq, ← h]
    simp only [hladder]
    exact p.ladder.layout_mapFolds g
  undo {p} h r := by
    change (undo p r).1.ladder.layout = c.layout
    cases hc : r.contribution? with
    | none => rwa [undo_of_none p hc]
    | some contribution =>
        obtain ⟨g, -, hladder⟩ :=
          exists_rollback_views p.history contribution.checkpoint p.ladder
        rw [undo_eq p hc, ← h]
        simp only [hladder]
        exact p.ladder.layout_mapFolds g
  conclude {p} h r b := by
    change (conclude p r b).ladder.layout = c.layout
    rw [conclude_eq, ← h]
    simp only [concluded]
    split
    · exact layout_learn r b.target p.ladder
    · rfl
  countRepair h := h
  reset {p} h := by
    rcases p with ⟨config, ladder, history, random⟩
    exact ladder.layout_reset.trans h

theorem Ittage.hashes_run {c : Config} {p : Ittage} (hbuild : c.build = .ok p)
    (calls : List Call) :
    let q := ((Session.start p).run calls).predictor
    q.ladder.Hashes c.ladder q.history := by
  obtain ⟨-, -, hcreate⟩ := build_eq_ok hbuild
  have hreachable := Session.reachable_run (s := Session.start p) .origin calls
  refine ⟨(kept_layout c.ladder).reachable ?_ hreachable, ?_,
    (keepsHistory c).pathBits_run (fits_build hbuild) hcreate calls⟩
  · obtain ⟨-, -, history, -, rfl⟩ := exists_of_build hbuild
    exact Ladder.layout_blank c.ladder
  · exact ((kept_sound c).reachable (sound_build hbuild) hreachable).foldsHold

/-- Slots are local.  After any two runs, with squashes, repairs and refused calls, of predictors
with one ladder configuration: where the newest bits of history that a table reads agree, and as
many of the path, every branch has the same index and the same tag in that table, both in range.
The configurations may differ in all but the ladder, in the seed of the draws for one. -/
theorem slots_eq_of_agree :
    (∀ {c c' : TageScl.Config} {p p' : TageScl}, c.build = .ok p → c'.build = .ok p' →
      c'.ladder = c.ladder → ∀ (calls calls' : List Call) {i : Nat} {shape : TableShape},
      c.ladder.tables[i]? = some shape →
        let q := ((Session.start p).run calls).predictor
        let q' := ((Session.start p').run calls').predictor
        q.history.Agree shape.historyLength (min shape.historyLength c.ladder.pathBits)
          q'.history →
        ∀ pc, ∃ slot, (q.tage.ladder.slots pc q.history.path)[i]? = some slot ∧
          (q'.tage.ladder.slots pc q'.history.path)[i]? = some slot ∧
          slot.index < 2 ^ shape.logSize ∧ slot.tag < 2 ^ shape.tagBits) ∧
      ∀ {c c' : Ittage.Config} {p p' : Ittage}, c.build = .ok p → c'.build = .ok p' →
        c'.ladder = c.ladder → ∀ (calls calls' : List Call) {i : Nat} {shape : TableShape},
        c.ladder.tables[i]? = some shape →
          let q := ((Session.start p).run calls).predictor
          let q' := ((Session.start p').run calls').predictor
          q.history.Agree shape.historyLength (min shape.historyLength c.ladder.pathBits)
            q'.history →
          ∀ pc, ∃ slot, (q.ladder.slots pc q.history.path)[i]? = some slot ∧
            (q'.ladder.slots pc q'.history.path)[i]? = some slot ∧
            slot.index < 2 ^ shape.logSize ∧ slot.tag < 2 ^ shape.tagBits := by
  constructor
  · intro c c' p p' hbuild hbuild' hladder calls calls' i shape hshape q q' hagree pc
    obtain ⟨hvalid, -⟩ := TageScl.build_eq_ok hbuild
    have hashes' := TageScl.hashes_run hbuild' calls'
    rw [hladder] at hashes'
    exact (TageScl.hashes_run hbuild calls).slots_eq (c.parts_of_validate hvalid).1 hashes'
      hshape hagree pc
  · intro c c' p p' hbuild hbuild' hladder calls calls' i shape hshape q q' hagree pc
    obtain ⟨hvalid, -⟩ := Ittage.build_eq_ok hbuild
    have hashes' := Ittage.hashes_run hbuild' calls'
    rw [hladder] at hashes'
    exact (Ittage.hashes_run hbuild calls).slots_eq (c.ladder_of_validate hvalid) hashes'
      hshape hagree pc

/-- One branch that is taken, and one that is not. -/
def straightRun : List Call :=
  [.predict 0 4 true, .update 0 ⟨4, .directBranch, .taken, 64⟩,
    .commit 0 ⟨4, .directBranch, .taken, 64⟩, .placeholder 1 8 true,
    .update 1 ⟨8, .directBranch, .notTaken, 32⟩]

/-- The same after an older branch, with a branch that is squashed and two that are repaired. -/
def windingRun : List Call :=
  [.predict 0 12 true, .commit 0 ⟨12, .directBranch, .taken, 64⟩, .predict 1 4 true,
    .update 1 ⟨4, .directBranch, .notTaken, 64⟩, .predict 2 8 true,
    .update 2 ⟨8, .directBranch, .taken, 32⟩, .squash 2,
    .repair 1 ⟨4, .directBranch, .taken, 64⟩, .commit 1 ⟨4, .directBranch, .taken, 64⟩,
    .predict 2 8 true, .update 2 ⟨8, .directBranch, .taken, 32⟩,
    .repair 2 ⟨8, .directBranch, .notTaken, 32⟩]

theorem windingRun_slots_eq :
    (let q := ((Session.start (TageScl.small none)).run straightRun).predictor
      let q' := ((Session.start (TageScl.small none)).run windingRun).predictor
      q.history.Agree 2 2 q'.history ∧ q.history.register.bit 2 ≠ q'.history.register.bit 2 ∧
        ∀ pc, ∃ slot, (q.tage.ladder.slots pc q.history.path)[0]? = some slot ∧
          (q'.tage.ladder.slots pc q'.history.path)[0]? = some slot ∧
          slot.index < 2 ∧ slot.tag < 4) ∧
      let q := ((Session.start Ittage.small).run straightRun).predictor
      let q' := ((Session.start Ittage.small).run windingRun).predictor
      q.history.Agree 2 2 q'.history ∧ q.history.register.bit 2 ≠ q'.history.register.bit 2 ∧
        ∀ pc, ∃ slot, (q.ladder.slots pc q.history.path)[0]? = some slot ∧
          (q'.ladder.slots pc q'.history.path)[0]? = some slot ∧
          slot.index < 2 ∧ slot.tag < 4 := by
  have hbuildTageScl : (TageScl.smallConfig none).build = .ok (TageScl.small none) := rfl
  have hbuildIttage : Ittage.smallConfig.build = .ok Ittage.small := rfl
  obtain ⟨htageScl, hittage⟩ := slots_eq_of_agree
  constructor
  · intro q q'
    have hagree : q.history.Agree 2 2 q'.history := ⟨by decide +kernel, by decide +kernel⟩
    have hshape : (TageScl.smallConfig none).ladder.tables[0]? = some ⟨2, 1, 2⟩ := rfl
    exact ⟨hagree, by decide +kernel,
      htageScl hbuildTageScl hbuildTageScl rfl straightRun windingRun hshape hagree⟩
  · intro q q'
    have hagree : q.history.Agree 2 2 q'.history := ⟨by decide +kernel, by decide +kernel⟩
    have hshape : Ittage.smallConfig.ladder.tables[0]? = some ⟨2, 1, 2⟩ := rfl
    exact ⟨hagree, by decide +kernel,
      hittage hbuildIttage hbuildIttage rfl straightRun windingRun hshape hagree⟩

end BranchPrediction
