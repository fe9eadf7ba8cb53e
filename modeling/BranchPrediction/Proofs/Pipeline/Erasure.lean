import BranchPrediction.Proofs.Pipeline.Retire
import BranchPrediction.Proofs.Pipeline.Script

/-!
# Erasing what was squashed

`Retires.run_erase` shows that a disciplined script ends in the same session as its erasure.

Both runs are described over one base, the state that the commits so far have made, by the branches
in flight that are stacked on it (`Joint`).  The full run stacks all of them and the erased run
those that will commit, in their final form (`survivors`).  A branch that will commit is fetched by
both runs in the same state, because all branches below it are settled.
-/

namespace BranchPrediction

open SteppedPredictor Session

variable {P R Q : Type} [SpeculativePredictor P R Q] [SteppedPredictor P]

/-! ## What becomes of branches in flight -/

/-- What becomes of a branch in flight: nothing if it is squashed, else its final form. -/
def Flight.final? (f : Flight R) (script : List Event) : Option (Flight R) :=
  if isSquashed f.handle script then none
  else some { f with branch := lastBranch f.handle f.branch script }

theorem Flight.final?_revise {f : Flight R} {h : Nat} (hne : h ≠ f.handle) (repairs : Bool)
    (b : Branch) (rest : List Event) :
    f.final? (.revise h repairs b :: rest) = f.final? rest := by
  simp only [final?, isSquashed, lastBranch, if_neg hne]

theorem Flight.final?_commit {f : Flight R} {h : Nat} (hne : h ≠ f.handle) (b : Branch)
    (rest : List Event) : f.final? (.commit h b :: rest) = f.final? rest := by
  simp only [final?, isSquashed, lastBranch, if_neg hne, bne_iff_ne.2 hne, Bool.true_and]

theorem Flight.final?_squash {f : Flight R} {h : Nat} (hne : h ≠ f.handle) (rest : List Event) :
    f.final? (.squash h :: rest) = f.final? rest := by
  simp only [final?, isSquashed, lastBranch, beq_eq_false_iff_ne.2 hne, Bool.false_or]

theorem Flight.final?_of_settled {f : Flight R} {script : List Event}
    (h : Settled f.handle script) : f.final? script = some f := by
  rw [final?, h.1, h.2]
  rfl

/-- The branches in flight that will commit, in their final form. -/
def survivors (script : List Event) (flights : List (Flight R)) : List (Flight R) :=
  flights.filterMap fun f => f.final? script

theorem survivors_congr {script script' : List Event} {flights : List (Flight R)}
    (h : ∀ f ∈ flights, f.final? script = f.final? script') :
    survivors script flights = survivors script' flights :=
  List.filterMap_congr h

theorem survivors_eq_self {flights : List (Flight R)} {script : List Event}
    (h : ∀ f ∈ flights, Settled f.handle script) : survivors script flights = flights := by
  have hfinal : ∀ f ∈ flights, f.final? script = some f := fun f hf =>
    Flight.final?_of_settled (h f hf)
  rw [survivors, List.filterMap_congr hfinal, List.filterMap_some]

theorem survivors_cons_none {f : Flight R} {script : List Event} (h : f.final? script = none)
    (flights : List (Flight R)) : survivors script (f :: flights) = survivors script flights := by
  simp only [survivors, List.filterMap_cons, h]

theorem survivors_cons_some {f f' : Flight R} {script : List Event}
    (h : f.final? script = some f') (flights : List (Flight R)) :
    survivors script (f :: flights) = f' :: survivors script flights := by
  simp only [survivors, List.filterMap_cons, h]

section Survivors

variable {f : Flight R} {others : List (Flight R)}

theorem survivors_revise (hothers : ∀ g ∈ others, f.handle ≠ g.handle) (repairs : Bool)
    (b : Branch) (rest : List Event) :
    survivors rest ({ f with branch := b } :: others) =
      survivors (.revise f.handle repairs b :: rest) (f :: others) := by
  have holder : survivors (.revise f.handle repairs b :: rest) others = survivors rest others :=
    survivors_congr fun g hg => Flight.final?_revise (hothers g hg) repairs b rest
  have hfinal : Flight.final? { f with branch := b } rest =
      f.final? (.revise f.handle repairs b :: rest) := by
    simp only [Flight.final?, isSquashed, lastBranch, if_true]
  simp only [survivors, List.filterMap_cons] at holder ⊢
  rw [hfinal, holder]

theorem survivors_squash (hothers : ∀ g ∈ others, f.handle ≠ g.handle) (rest : List Event) :
    survivors (.squash f.handle :: rest) (f :: others) = survivors rest others := by
  have hfinal : f.final? (.squash f.handle :: rest) = none := by
    simp [Flight.final?, isSquashed]
  rw [survivors_cons_none hfinal]
  exact survivors_congr fun g hg => Flight.final?_squash (hothers g hg) rest

theorem survivors_commit (hothers : ∀ g ∈ others, f.handle ≠ g.handle) (b : Branch)
    (rest : List Event) :
    survivors (.commit f.handle b :: rest) (others ++ [f]) = survivors rest others ++ [f] := by
  have hfinal : f.final? (.commit f.handle b :: rest) = some f :=
    Flight.final?_of_settled (settled_commit f.handle b rest)
  have hyounger : survivors (.commit f.handle b :: rest) others = survivors rest others :=
    survivors_congr fun g hg => Flight.final?_commit (hothers g hg) b rest
  simp only [survivors, List.filterMap_append, List.filterMap_cons, List.filterMap_nil, hfinal]
    at hyounger ⊢
  rw [hyounger]

end Survivors

/-! ## The two runs -/

/-- Handle and address of each branch in flight. -/
def liveOf (flights : List (Flight R)) : List (Nat × UInt64) :=
  flights.map fun f => (f.handle, f.branch.pc)

theorem map_fst_liveOf (flights : List (Flight R)) :
    (liveOf flights).map Prod.fst = flights.map Flight.handle := by
  rw [liveOf, List.map_map]
  rfl

/-- The full run and the erased run stand over one base. -/
structure Joint (Sound : P → Prop) (Anchored : P → R → Prop) (script : List Event)
    (base : Session P R) (flights : List (Flight R)) (full erased : Session P R) : Prop where
  base_records : ∀ k, base.records k = none
  disciplined : Disciplined (liveOf flights) script
  nodup : ((liveOf flights).map Prod.fst).Nodup
  full_stands : Stands Sound Anchored base flights
  erased_stands : Stands Sound Anchored base (survivors script flights)
  full_eq : full = base.raise flights
  erased_eq : erased = base.raise (survivors script flights)

theorem Joint.head_ne {Sound : P → Prop} {Anchored : P → R → Prop} {script : List Event}
    {base full erased : Session P R} {f : Flight R} {older : List (Flight R)}
    (joint : Joint Sound Anchored script base (f :: older) full erased) :
    ∀ g ∈ older, f.handle ≠ g.handle := by
  have hnodup := joint.nodup
  rw [map_fst_liveOf] at hnodup
  intro g hg heq
  exact (List.nodup_cons.1 hnodup).1 (heq ▸ List.mem_map_of_mem hg)

theorem Joint.eq_concat {Sound : P → Prop} {Anchored : P → R → Prop} {h : Nat} {b : Branch}
    {rest : List Event} {base full erased : Session P R} {flights : List (Flight R)}
    (joint : Joint Sound Anchored (.commit h b :: rest) base flights full erased) :
    ∃ younger f, flights = younger ++ [f] ∧ f.handle = h ∧ Disciplined (liveOf younger) rest ∧
      ((liveOf younger).map Prod.fst).Nodup ∧ ∀ g ∈ younger, f.handle ≠ g.handle := by
  obtain ⟨live, hlive, hrest⟩ := joint.disciplined.of_commit
  obtain ⟨younger, oldest, rfl, hyounger, holdest⟩ := List.map_eq_append_iff.1 hlive
  obtain ⟨f, rfl, hf⟩ := List.map_eq_singleton_iff.1 holdest
  have hnodup := joint.nodup
  rw [hlive, List.map_append] at hnodup
  obtain ⟨hnodupYounger, -, hdisjoint⟩ := List.nodup_append.1 hnodup
  rw [← hyounger] at hrest hnodupYounger hdisjoint
  refine ⟨younger, f, rfl, congrArg Prod.fst hf, hrest, hnodupYounger, ?_⟩
  intro g hg heq
  have hmem : g.handle ∈ (liveOf younger).map Prod.fst := by
    rw [map_fst_liveOf]
    exact List.mem_map_of_mem hg
  exact hdisjoint g.handle hmem h (by simp) (heq.symm.trans (congrArg Prod.fst hf))

namespace Retires

variable {Sound : P → Prop} {Anchored Counted : P → R → Prop}

/-- A branch that will be squashed is fetched by the full run only. -/
theorem joint_fetch_squashed (laws : Retires Sound Anchored Counted)
    {base full erased : Session P R} {flights : List (Flight R)} {h : Nat} {predicted : Bool}
    {pc : UInt64} {isConditional : Bool} {b : Branch} {rest : List Event}
    (joint : Joint Sound Anchored (.fetch h predicted pc isConditional b :: rest) base flights
      full erased)
    (hfull : full.errors (Event.fetch h predicted pc isConditional b).calls = [])
    (hsquashed : isSquashed h rest = true) :
    ∃ flights', Joint Sound Anchored rest base flights'
      (full.run (Event.fetch h predicted pc isConditional b).calls) erased := by
  obtain ⟨hnew, hpc, hrest⟩ := joint.disciplined
  obtain ⟨a, -, hanchored, hroom, hrun⟩ :=
    laws.run_fetch (joint.full_eq ▸ laws.sound_raise joint.full_stands) hfull
  have hsurvivors : survivors rest (⟨h, a, b⟩ :: flights) = survivors rest flights := by
    have hfinal : Flight.final? ⟨h, a, b⟩ rest = none := by
      rw [Flight.final?, if_pos hsquashed]
    exact survivors_cons_none hfinal flights
  have hfull_eq := joint.full_eq
  subst hfull_eq
  have hnotMem : h ∉ flights.map Flight.handle := by rwa [map_fst_liveOf] at hnew
  refine ⟨⟨h, a, b⟩ :: flights, joint.base_records, ?_, List.nodup_cons.2 ⟨hnew, joint.nodup⟩,
    ⟨joint.full_stands, ?_, hanchored, hroom⟩, ?_, hrun, ?_⟩
  · rw [← hpc] at hrest
    exact hrest
  · rw [records_raise_of_notMem hnotMem, joint.base_records]
  · rw [hsurvivors]
    exact joint.erased_stands
  · rw [hsurvivors]
    exact joint.erased_eq

/-- A branch that will commit is fetched by both runs in the same state. -/
theorem joint_fetch_kept (laws : Retires Sound Anchored Counted)
    {base full erased : Session P R} {flights : List (Flight R)} {h : Nat} {predicted : Bool}
    {pc : UInt64} {isConditional : Bool} {b : Branch} {rest : List Event}
    (joint : Joint Sound Anchored (.fetch h predicted pc isConditional b :: rest) base flights
      full erased)
    (hfull : full.errors (Event.fetch h predicted pc isConditional b).calls = [])
    (hkept : isSquashed h rest = false)
    (herased : erased.errors
      (Event.fetch h predicted pc isConditional (lastBranch h b rest)).calls = []) :
    ∃ flights', Joint Sound Anchored rest base flights'
      (full.run (Event.fetch h predicted pc isConditional b).calls)
      (erased.run (Event.fetch h predicted pc isConditional (lastBranch h b rest)).calls) := by
  obtain ⟨hnew, hpc, hrest⟩ := joint.disciplined
  have hnodup : (((h, pc) :: liveOf flights).map Prod.fst).Nodup :=
    List.nodup_cons.2 ⟨hnew, joint.nodup⟩
  have hsettled : ∀ f ∈ flights, Settled f.handle rest := by
    intro f hf
    have hrest' : Disciplined ([] ++ (h, pc) :: liveOf flights) rest := hrest
    exact hrest'.settled hnodup hkept (List.mem_map_of_mem hf)
  have hself : survivors rest flights = flights := survivors_eq_self hsettled
  have hsame : erased = full := by
    rw [joint.erased_eq, joint.full_eq]
    exact congrArg base.raise hself
  have hlast : (lastBranch h b rest).pc = b.pc :=
    hrest.pc_lastBranch hnodup (hpc ▸ List.mem_cons_self) hkept
  have hsound : Sound full.predictor := joint.full_eq ▸ laws.sound_raise joint.full_stands
  rw [hsame] at herased ⊢
  obtain ⟨a, ha, hanchored, hroom, hrun⟩ := laws.run_fetch hsound hfull
  obtain ⟨a', ha', -, hroom', hrun'⟩ := laws.run_fetch hsound herased
  obtain rfl : a' = a := by rw [ha, ha', hlast]
  have hsurvivors : survivors rest (⟨h, a', b⟩ :: flights) =
      ⟨h, a', lastBranch h b rest⟩ :: flights := by
    have hfinal : Flight.final? ⟨h, a', b⟩ rest = some ⟨h, a', lastBranch h b rest⟩ := by
      rw [Flight.final?, if_neg (by simp [hkept])]
    rw [survivors_cons_some hfinal, hself]
  have hfull_eq := joint.full_eq
  subst hfull_eq
  have hnotMem : h ∉ flights.map Flight.handle := by rwa [map_fst_liveOf] at hnew
  have hfresh : (base.raise flights).records h = none := by
    rw [records_raise_of_notMem hnotMem, joint.base_records]
  refine ⟨⟨h, a', b⟩ :: flights, joint.base_records, ?_, List.nodup_cons.2 ⟨hnew, joint.nodup⟩,
    ⟨joint.full_stands, hfresh, hanchored, hroom⟩, ?_, hrun, ?_⟩
  · rw [← hpc] at hrest
    exact hrest
  · rw [hsurvivors]
    exact ⟨joint.full_stands, hfresh, hanchored, hroom'⟩
  · rw [hsurvivors]
    exact hrun'

theorem joint_revise (laws : Retires Sound Anchored Counted)
    {base full erased : Session P R} {flights : List (Flight R)} {h : Nat} {repairs : Bool}
    {b : Branch} {rest : List Event}
    (joint : Joint Sound Anchored (.revise h repairs b :: rest) base flights full erased)
    (hfull : full.errors [.update h b] = []) :
    ∃ flights', Joint Sound Anchored rest base flights' (full.run [.update h b]) erased := by
  obtain ⟨hyoungest, hrest⟩ := joint.disciplined
  cases flights with
  | nil => cases hyoungest
  | cons f older =>
      obtain ⟨hhandle, hpc⟩ := Prod.mk.inj (Option.some.inj hyoungest)
      subst hhandle
      obtain ⟨hbelow, hfresh, hanchored, hroom⟩ := joint.full_stands
      have hstep := laws.perform_update_push f.handle (laws.sound_raise hbelow) hanchored hroom b
      have hfull_eq := joint.full_eq
      rw [raise_cons] at hfull_eq
      subst hfull_eq
      have hothers := joint.head_ne
      have hroom' : appendError? (base.raise older).predictor b = none := by
        cases hroom' : appendError? (base.raise older).predictor b with
        | none => rfl
        | some error => simp [errors, hstep, hroom'] at hfull
      have hlive : liveOf (⟨f.handle, f.record, b⟩ :: older) = liveOf (f :: older) := by
        simp only [liveOf, List.map_cons, hpc]
      have hsurvivors := survivors_revise hothers repairs b rest
      refine ⟨⟨f.handle, f.record, b⟩ :: older, joint.base_records, ?_, ?_,
        ⟨hbelow, hfresh, hanchored, hroom'⟩, ?_, ?_, ?_⟩
      · rw [hlive]
        exact hrest
      · rw [hlive]
        exact joint.nodup
      · rw [hsurvivors]
        exact joint.erased_stands
      · rw [run_cons, run_nil, hstep, attempt_of_room hroom', raise_cons]
      · rw [hsurvivors]
        exact joint.erased_eq

theorem joint_squash (laws : Retires Sound Anchored Counted)
    {base full erased : Session P R} {flights : List (Flight R)} {h : Nat} {rest : List Event}
    (joint : Joint Sound Anchored (.squash h :: rest) base flights full erased) :
    ∃ flights', Joint Sound Anchored rest base flights' (full.run [.squash h]) erased := by
  obtain ⟨hyoungest, hrest⟩ := joint.disciplined
  cases flights with
  | nil => cases hyoungest
  | cons f older =>
      have hhandle : f.handle = h := Option.some.inj hyoungest
      subst hhandle
      obtain ⟨hbelow, hfresh, hanchored, hroom⟩ := joint.full_stands
      have hstep := laws.perform_squash_push hfresh (laws.sound_raise hbelow) hanchored hroom
      have herasedStands := joint.erased_stands
      have herasedEq := joint.erased_eq
      rw [survivors_squash joint.head_ne] at herasedStands herasedEq
      refine ⟨older, joint.base_records, hrest, (List.nodup_cons.1 joint.nodup).2, hbelow,
        herasedStands, ?_, herasedEq⟩
      rw [run_cons, run_nil, joint.full_eq, raise_cons, hstep]

theorem joint_commit (laws : Retires Sound Anchored Counted)
    {base full erased : Session P R} {flights : List (Flight R)} {h : Nat} {b : Branch}
    {rest : List Event}
    (joint : Joint Sound Anchored (.commit h b :: rest) base flights full erased) :
    ∃ base' flights', Joint Sound Anchored rest base' flights' (full.run [.commit h b])
      (erased.run [.commit h b]) := by
  obtain ⟨younger, f, rfl, rfl, hrest, hnodup, hothers⟩ := joint.eq_concat
  have herasedStands := joint.erased_stands
  have herasedEq := joint.erased_eq
  rw [survivors_commit hothers] at herasedStands herasedEq
  obtain ⟨base', hbase, hfullStep, hfullStands⟩ :=
    laws.perform_commit_raise b joint.full_stands
  obtain ⟨base'', hbase', herasedStep, herasedStands'⟩ :=
    laws.perform_commit_raise b herasedStands
  obtain rfl : base'' = base' := by rw [hbase, hbase']
  refine ⟨base'', younger, ?_, hrest, hnodup, hfullStands, herasedStands', ?_, ?_⟩
  · rw [hbase']
    exact records_settle_push joint.base_records f.handle f.record _ f.branch b
  · rw [run_cons, run_nil, joint.full_eq, hfullStep]
  · rw [run_cons, run_nil, herasedEq, herasedStep]

theorem joint_reset (laws : Retires Sound Anchored Counted)
    {base full erased : Session P R} {flights : List (Flight R)} {rest : List Event}
    (joint : Joint Sound Anchored (.reset :: rest) base flights full erased) :
    ∃ base' flights', Joint Sound Anchored rest base' flights' (full.run [.reset])
      (erased.run [.reset]) := by
  obtain ⟨hempty, hrest⟩ := joint.disciplined
  obtain rfl : flights = [] := List.map_eq_nil_iff.1 hempty
  have hsound : Sound base.predictor := joint.full_stands
  refine ⟨(base.perform .reset).1, [], joint.base_records, hrest, joint.nodup,
    laws.kept.reset hsound, laws.kept.reset hsound, ?_, ?_⟩
  · rw [joint.full_eq]
    rfl
  · rw [joint.erased_eq]
    rfl

/-- With updates in place of repairs, the two runs end in the same session. -/
theorem run_joint (laws : Retires Sound Anchored Counted) {base full erased : Session P R}
    {flights : List (Flight R)} {script : List Event}
    (joint : Joint Sound Anchored (script.map Event.asUpdate) base flights full erased)
    (hfull : full.errors ((script.map Event.asUpdate).flatMap Event.calls) = [])
    (herased : erased.errors ((erase (script.map Event.asUpdate)).flatMap Event.calls) = []) :
    full.run ((script.map Event.asUpdate).flatMap Event.calls) =
      erased.run ((erase (script.map Event.asUpdate)).flatMap Event.calls) := by
  -- both runs stand on one base, the full one with more branches in flight; each event keeps that
  induction script generalizing base full erased flights with
  | nil =>
      have hself : survivors [] flights = flights :=
        survivors_eq_self fun f _ => ⟨rfl, fun _ => rfl⟩
      have herasedEq := joint.erased_eq
      rw [List.map_nil, hself] at herasedEq
      exact joint.full_eq.trans herasedEq.symm
  | cons event rest ih =>
      rw [List.map_cons, List.flatMap_cons, errors_append] at hfull
      obtain ⟨hfirst, hlater⟩ := List.append_eq_nil_iff.1 hfull
      rw [List.map_cons, List.flatMap_cons, run_append]
      cases event with
      | fetch h predicted pc isConditional b =>
          cases hfate : isSquashed h (rest.map Event.asUpdate) with
          | true =>
              -- a step of the full run only, and the erased run goes on from where it is
              obtain ⟨flights', joint'⟩ := laws.joint_fetch_squashed joint hfirst hfate
              have herase : erase (.fetch h predicted pc isConditional b ::
                  rest.map Event.asUpdate) = erase (rest.map Event.asUpdate) := by
                rw [erase, if_pos hfate]
              simp only [List.map_cons, Event.asUpdate, herase] at herased ⊢
              exact ih joint' hlater herased
          | false =>
              have herase : erase (.fetch h predicted pc isConditional b ::
                  rest.map Event.asUpdate) =
                  .fetch h predicted pc isConditional (lastBranch h b (rest.map Event.asUpdate)) ::
                    erase (rest.map Event.asUpdate) := by
                rw [erase, if_neg (by simp [hfate])]
              simp only [List.map_cons, Event.asUpdate, herase, List.flatMap_cons, errors_append,
                run_append] at herased ⊢
              obtain ⟨herasedFirst, herasedLater⟩ := List.append_eq_nil_iff.1 herased
              obtain ⟨flights', joint'⟩ :=
                laws.joint_fetch_kept joint hfirst hfate herasedFirst
              exact ih joint' hlater herasedLater
      | revise h repairs b =>
          obtain ⟨flights', joint'⟩ := laws.joint_revise joint hfirst
          exact ih joint' hlater herased
      | commit h b =>
          simp only [List.map_cons, Event.asUpdate, erase, List.flatMap_cons, errors_append,
            run_append] at herased ⊢
          obtain ⟨base', flights', joint'⟩ := laws.joint_commit joint
          exact ih joint' hlater (List.append_eq_nil_iff.1 herased).2
      | squash h =>
          obtain ⟨flights', joint'⟩ := laws.joint_squash joint
          exact ih joint' hlater herased
      | reset =>
          simp only [List.map_cons, Event.asUpdate, erase, List.flatMap_cons, errors_append,
            run_append] at herased ⊢
          obtain ⟨base', flights', joint'⟩ := laws.joint_reset joint
          exact ih joint' hlater (List.append_eq_nil_iff.1 herased).2

/-- A run that respects the order of the branches in flight ends where the erased run does, but for
the count of repairs, and has committed the same records. -/
theorem run_erase (laws : Retires Sound Anchored Counted) {p : P} (hp : Sound p)
    {script : List Event} (hdisciplined : Disciplined [] script)
    (hfull : (start p).errors (script.flatMap Event.calls) = [])
    (herased : (start p).errors ((erase script).flatMap Event.calls) = []) :
    ((start p).run (script.flatMap Event.calls)).forget =
      ((start p).run ((erase script).flatMap Event.calls)).forget := by
  obtain ⟨hrun, herrors⟩ := run_asUpdate (s := start p) rfl (script.flatMap Event.calls)
  rw [Event.flatMap_calls_asUpdate] at hrun herrors
  rw [herrors] at hfull
  rw [← erase_asUpdate] at herased ⊢
  have joint : Joint Sound Anchored (script.map Event.asUpdate) (start p) [] (start p)
      (start p) :=
    ⟨fun _ => rfl, disciplined_asUpdate hdisciplined, List.nodup_nil, hp, hp, rfl, rfl⟩
  rw [hrun, laws.run_joint joint hfull herased]

end Retires

end BranchPrediction
