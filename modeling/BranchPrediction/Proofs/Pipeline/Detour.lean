import BranchPrediction.Proofs.Pipeline.Rewind
import Mathlib.Data.List.Find

/-!
# Wrong-path detours

A detour is what a pipeline does down a wrong path: it fetches new branches, may revise the
youngest one that is applied, and squashes all of them, youngest first, before it ends.  Updates
may fail on the way because the history is full.  `Rewinds.run_detour` shows that a detour leaves
no trace but repairs that were counted.

The invariant along a detour is `Raised`: the session is the one at the start of the detour with
the branches opened since stacked on top, each either applied to the state that the older ones left
(`push`) or without a contribution (`hold`).

A `Leg` is one part of a run with detours, in which a branch may also first insert its history as
misread; `Rewinds.run_legs` compares the run with the straight one.
-/

namespace BranchPrediction

open SteppedPredictor

/-- The handles that are open after an event, youngest first. -/
def Event.opens (opened : List Nat) : Event → List Nat
  | fetch h _ _ _ _ => h :: opened
  | squash _ => opened.tail
  | _ => opened

variable {P R Q : Type} [SpeculativePredictor P R Q] [SteppedPredictor P]

namespace Session

/-- The record of a handle has a contribution that is applied. -/
def isApplied (s : Session P R) (h : Nat) : Bool :=
  (s.records h).any fun r => (contribution? P r).isSome

/-- What may come next in a detour, given the handles that it opened, youngest first. -/
def Allows (s : Session P R) (opened : List Nat) : Event → Prop
  | .fetch h _ _ _ _ => s.records h = none
  | .revise h _ _ => opened.find? s.isApplied = some h
  | .squash h => opened.head? = some h
  | .commit _ _ => False
  | .reset => False

/-- A detour from this session on, given the handles that it opened before, youngest first.  It
ends when all of them are squashed. -/
def Detour (s : Session P R) (opened : List Nat) : List Event → Prop
  | [] => opened = []
  | event :: rest =>
    s.Allows opened event ∧ (s.run event.calls).Detour (event.opens opened) rest

/-- Sessions that agree up to the count of repairs allow the same detours, and repairs may be
taken for updates. -/
theorem detour_asUpdate {s t : Session P R} (hst : s.forget = t.forget) {opened : List Nat}
    {events : List Event} (hdetour : s.Detour opened events) :
    t.Detour opened (events.map Event.asUpdate) := by
  induction events generalizing s t opened with
  | nil => exact hdetour
  | cons event rest ih =>
      obtain ⟨hallows, hrest⟩ := hdetour
      have hrecords : s.records = t.records := (agree_of_forget_eq hst).2.1
      have happlied : s.isApplied = t.isApplied := by
        funext h
        simp only [isApplied, hrecords]
      have hnext := (run_asUpdate hst event.calls).1
      rw [Event.calls_asUpdate] at hnext
      cases event with
      | fetch h predicted pc isConditional b =>
          have hfresh : t.records h = none := hrecords ▸ hallows
          exact ⟨hfresh, ih hnext hrest⟩
      | revise h repairs b =>
          have hyoungest : opened.find? t.isApplied = some h := happlied ▸ hallows
          exact ⟨hyoungest, ih hnext hrest⟩
      | commit h b => exact hallows.elim
      | squash h => exact ⟨hallows, ih hnext hrest⟩
      | reset => exact hallows.elim

theorem isApplied_hold_of_ne (s : Session P R) {h k : Nat} (hne : k ≠ h) (r : R) :
    (s.hold h r).isApplied k = s.isApplied k := by
  rw [isApplied, records_hold_of_ne s hne, isApplied]

end Session

open Session

/-- The session is `base` with the branches of these handles, youngest first, stacked on it. -/
inductive Raised (Anchored : P → R → Prop) (base : Session P R) : List Nat → Session P R → Prop
  | base : Raised Anchored base [] base
  | hold {opened : List Nat} {s : Session P R} {h : Nat} {r : R}
      (below : Raised Anchored base opened s) (hfresh : s.records h = none)
      (haccepts : accepts base.predictor r = true) (hnone : contribution? P r = none) :
      Raised Anchored base (h :: opened) (s.hold h r)
  | push {opened : List Nat} {s : Session P R} {h : Nat} {r : R} {b : Branch}
      (below : Raised Anchored base opened s) (hfresh : s.records h = none)
      (hanchored : Anchored s.predictor r) (hroom : appendError? s.predictor b = none) :
      Raised Anchored base (h :: opened) (s.push h r b)

namespace Raised

variable {Sound : P → Prop} {Anchored : P → R → Prop} {base s : Session P R} {opened : List Nat}

theorem sound (h : Raised Anchored base opened s) (laws : Rewinds Sound Anchored)
    (hbase : Sound base.predictor) : Sound s.predictor := by
  induction h with
  | base => exact hbase
  | hold below hfresh haccepts hnone ih => exact ih
  | push below hfresh hanchored hroom ih => exact laws.kept.apply ih _ _

theorem accepts_eq (h : Raised Anchored base opened s) (laws : Rewinds Sound Anchored) (r : R) :
    accepts s.predictor r = accepts base.predictor r := by
  induction h with
  | base => rfl
  | hold below hfresh haccepts hnone ih => exact ih
  | push below hfresh hanchored hroom ih => exact (laws.accepts_apply _ _ _ r).trans ih

theorem records_ne_none (h : Raised Anchored base opened s) {k : Nat} (hk : k ∈ opened) :
    s.records k ≠ none := by
  induction h with
  | base => cases hk
  | @hold _ _ h _ below hfresh haccepts hnone ih =>
      by_cases hkh : k = h
      · subst hkh
        simp
      · rw [records_hold_of_ne _ hkh]
        exact ih ((List.mem_cons.1 hk).resolve_left hkh)
  | @push _ _ h _ _ below hfresh hanchored hroom ih =>
      by_cases hkh : k = h
      · subst hkh
        simp
      · rw [records_push_of_ne _ hkh]
        exact ih ((List.mem_cons.1 hk).resolve_left hkh)

theorem attempt (hraised : Raised Anchored base opened s) (laws : Rewinds Sound Anchored) {h : Nat}
    (hfresh : s.records h = none) {r left : R} (hanchored : Anchored s.predictor r)
    (hleft : Anchored s.predictor left) (b : Branch) :
    Raised Anchored base (h :: opened) (s.attempt h r left b) := by
  cases hroom : appendError? s.predictor b with
  | none =>
      rw [attempt_of_room hroom]
      exact .push hraised hfresh hanchored hroom
  | some error =>
      rw [attempt_of_error hroom]
      refine .hold hraised hfresh ?_ (laws.contribution?_of_anchored hleft)
      rw [← hraised.accepts_eq laws]
      exact laws.accepts_of_anchored hleft

end Raised

/-- The history being full is the only reason not to insert the history of a branch. -/
def RefusesOverflowsOnly (Sound : P → Prop) : Prop :=
  ∀ {p : P} {b : Branch}, Sound p → OverflowsOnly (appendError? p b).toList

namespace Rewinds

variable {Sound : P → Prop} {Anchored : P → R → Prop} {base s : Session P R} {opened : List Nat}

/-! ## One event of a detour -/

theorem raised_fetch (laws : Rewinds Sound Anchored) (hfull : RefusesOverflowsOnly Sound)
    (hbase : Sound base.predictor) (hraised : Raised Anchored base opened s) {h : Nat}
    (hfresh : s.records h = none) (predicted : Bool) (pc : UInt64) (isConditional : Bool)
    (b : Branch) :
    Raised Anchored base (h :: opened) (s.run (Event.fetch h predicted pc isConditional b).calls) ∧
      OverflowsOnly (s.errors (Event.fetch h predicted pc isConditional b).calls) := by
  have hsound := hraised.sound laws hbase
  obtain ⟨a, -, hanchored, hupdate⟩ :=
    laws.perform_update_new hsound h predicted pc isConditional b
  simp only [Event.calls, run_cons, run_nil, errors, perform_create, hupdate, Option.toList_none,
    List.nil_append, List.append_nil]
  exact ⟨hraised.attempt laws hfresh hanchored hanchored b, hfull hsound⟩

/-- A revision of the youngest branch that is applied passes by those that are not. -/
theorem raised_update (laws : Rewinds Sound Anchored) (hfull : RefusesOverflowsOnly Sound)
    (hbase : Sound base.predictor) (hraised : Raised Anchored base opened s) {k : Nat}
    (hyoungest : opened.find? s.isApplied = some k) (b' : Branch) :
    Raised Anchored base opened (s.perform (.update k b')).1 ∧
      OverflowsOnly (s.perform (.update k b')).2.toList ∧
      ∀ i, i ≠ k → (s.perform (.update k b')).1.records i = s.records i := by
  induction hraised with
  | base => cases hyoungest
  | @hold opened s h r below hfresh haccepts hnone ih =>
      -- the youngest branch has nothing applied, so the update concerns one below it
      have hidle : (s.hold h r).isApplied h = false := by
        simp [isApplied, hnone]
      have hsame : opened.find? (s.hold h r).isApplied = opened.find? s.isApplied := by
        apply List.find?_congr
        intro i hi
        apply isApplied_hold_of_ne
        rintro rfl
        exact below.records_ne_none hi hfresh
      rw [List.find?_cons_of_neg (by simp [hidle]), hsame] at hyoungest
      obtain ⟨hraised, herrors, hrecords⟩ := ih hyoungest
      have hne : k ≠ h := by
        rintro rfl
        exact below.records_ne_none (List.mem_of_find?_eq_some hyoungest) hfresh
      rw [perform_update_other s hne]
      refine ⟨.hold hraised ?_ haccepts hnone, herrors, ?_⟩
      · rw [hrecords h hne.symm, hfresh]
      · intro i hi
        by_cases hih : i = h
        · subst hih
          simp
        · rw [records_hold_of_ne _ hih, records_hold_of_ne _ hih]
          exact hrecords i hi
  | @push opened s h r b below hfresh hanchored hroom ih =>
      have hsound := below.sound laws hbase
      have happlied : (s.push h r b).isApplied h = true := by
        simp [isApplied, laws.isSome_contribution?_applied]
      rw [List.find?_cons_of_pos happlied] at hyoungest
      obtain rfl := Option.some.inj hyoungest
      rw [laws.perform_update_push h hsound hanchored hroom]
      have hundone := laws.anchored_undone hanchored b
      refine ⟨below.attempt laws hfresh hanchored hundone b', hfull hsound, ?_⟩
      intro i hi
      rw [records_attempt_of_ne _ hi, records_push_of_ne _ hi]

theorem raised_squash (laws : Rewinds Sound Anchored) (hbase : Sound base.predictor)
    (hraised : Raised Anchored base opened s) {h : Nat} (hyoungest : opened.head? = some h) :
    Raised Anchored base opened.tail (s.perform (.squash h)).1 ∧
      (s.perform (.squash h)).2 = none := by
  cases hraised with
  | base => cases hyoungest
  | hold below hfresh haccepts hnone =>
      obtain rfl := Option.some.inj hyoungest
      rw [laws.perform_squash_hold hfresh (by rwa [below.accepts_eq laws]) hnone]
      exact ⟨below, rfl⟩
  | push below hfresh hanchored hroom =>
      obtain rfl := Option.some.inj hyoungest
      rw [laws.perform_squash_push hfresh (below.sound laws hbase) hanchored hroom]
      exact ⟨below, rfl⟩

/-- One event of a detour keeps the branches stacked. -/
theorem raised_event (laws : Rewinds Sound Anchored) (hfull : RefusesOverflowsOnly Sound)
    (hbase : Sound base.predictor) (hraised : Raised Anchored base opened s) {event : Event}
    (hallows : s.Allows opened event.asUpdate) :
    Raised Anchored base (event.asUpdate.opens opened) (s.run event.asUpdate.calls) ∧
      OverflowsOnly (s.errors event.asUpdate.calls) := by
  cases event with
  | fetch h predicted pc isConditional b =>
      exact laws.raised_fetch hfull hbase hraised hallows predicted pc isConditional b
  | revise h repairs b =>
      obtain ⟨hnext, herrors, -⟩ := laws.raised_update hfull hbase hraised hallows b
      refine ⟨hnext, ?_⟩
      simpa [Event.asUpdate, Event.calls, Call.revise, errors] using herrors
  | commit h b => exact hallows.elim
  | squash h =>
      obtain ⟨hnext, herror⟩ := laws.raised_squash hbase hraised hallows
      refine ⟨hnext, ?_⟩
      simp [Event.asUpdate, Event.calls, errors, herror, OverflowsOnly]
  | reset => exact hallows.elim

/-! ## Whole detours -/

theorem run_raised (laws : Rewinds Sound Anchored) (hfull : RefusesOverflowsOnly Sound)
    (hbase : Sound base.predictor) (hraised : Raised Anchored base opened s) {events : List Event}
    (hdetour : s.Detour opened (events.map Event.asUpdate)) :
    s.run ((events.map Event.asUpdate).flatMap Event.calls) = base ∧
      OverflowsOnly (s.errors ((events.map Event.asUpdate).flatMap Event.calls)) := by
  induction events generalizing s opened with
  | nil =>
      cases hdetour
      cases hraised
      exact ⟨rfl, overflowsOnly_nil⟩
  | cons event rest ih =>
      obtain ⟨hallows, hrest⟩ := hdetour
      obtain ⟨hnext, herrors⟩ := laws.raised_event hfull hbase hraised hallows
      obtain ⟨hrun, herrorsRest⟩ := ih hnext hrest
      rw [List.map_cons, List.flatMap_cons, run_append, errors_append]
      exact ⟨hrun, overflowsOnly_append herrors herrorsRest⟩

/-- A detour leaves no trace, but for the count of repairs. -/
theorem run_detour (laws : Rewinds Sound Anchored) (hfull : RefusesOverflowsOnly Sound)
    (hs : Sound s.predictor) {events : List Event} (hdetour : s.Detour [] events) :
    (s.run (events.flatMap Event.calls)).forget = s.forget ∧
      OverflowsOnly (s.errors (events.flatMap Event.calls)) := by
  have hupdates := detour_asUpdate (t := s) rfl hdetour
  obtain ⟨hrun, herrors⟩ := laws.run_raised hfull hs .base hupdates
  obtain ⟨hforget, hsame⟩ := run_asUpdate (s := s) rfl (events.flatMap Event.calls)
  rw [Event.flatMap_calls_asUpdate] at hforget hsame
  rw [hforget, hsame, hrun]
  exact ⟨rfl, herrors⟩

end Rewinds

/-! ## Runs with detours -/

/-- A branch that first inserts its history as something else, a detour down the path that follows
from it, and how the history is put right. -/
structure Misread where
  wrong : Branch
  detour : List Event
  repairs : Bool

/-- One part of a run with detours. -/
inductive Leg where
  /-- An event of the straight run. -/
  | follow (event : Event)
  | detour (events : List Event)
  /-- A branch of the straight run, with a detour before its first update, which may misread it. -/
  | fetch (h : Nat) (predicted : Bool) (pc : UInt64) (isConditional : Bool) (b : Branch)
      (before : List Event) (misread? : Option Misread)

namespace Leg

/-- The calls of the straight run. -/
def straight : Leg → List Call
  | follow event => event.calls
  | detour _ => []
  | fetch h predicted pc isConditional b _ _ =>
    (Event.fetch h predicted pc isConditional b).calls

/-- The calls that insert the history of a branch, as it is or misread at first. -/
def updates (h : Nat) (b : Branch) : Option Misread → List Call
  | none => [.update h b]
  | some m => .update h m.wrong :: (m.detour.flatMap Event.calls ++ [.revise h m.repairs b])

def calls : Leg → List Call
  | follow event => event.calls
  | detour events => events.flatMap Event.calls
  | fetch h predicted pc isConditional b before misread? =>
    .create h predicted pc isConditional :: (before.flatMap Event.calls ++ updates h b misread?)

def MayMisread (s : Session P R) (h : Nat) (b : Branch) : Option Misread → Prop
  | none => True
  | some m =>
    m.wrong.pc = b.pc ∧ (s.perform (.update h m.wrong)).1.Detour [] m.detour

def Valid (s : Session P R) : Leg → Prop
  | follow _ => True
  | detour events => s.Detour [] events
  | fetch h predicted pc isConditional b before misread? =>
    (s.run [.create h predicted pc isConditional]).Detour [] before ∧
      MayMisread (s.run (.create h predicted pc isConditional :: before.flatMap Event.calls)) h b
        misread?

end Leg

/-- All detours along a run are detours. -/
def Session.Itinerary (s : Session P R) : List Leg → Prop
  | [] => True
  | leg :: legs => leg.Valid s ∧ (s.run leg.calls).Itinerary legs

namespace Rewinds

variable {Sound : P → Prop} {Anchored : P → R → Prop} {s : Session P R}

/-- A misread branch that is put right leaves what its update alone would have left. -/
theorem run_misread (laws : Rewinds Sound Anchored) (hfull : RefusesOverflowsOnly Sound)
    (hs : Sound s.predictor) {h : Nat} {predicted : Bool} {pc : UInt64} {isConditional : Bool}
    {b : Branch} {m : Misread} {t : Session P R} (ht : Sound t.predictor)
    (hcreated : t.forget =
      (s.hold h (newRecord s.predictor predicted pc isConditional)).forget)
    (hmisread : Leg.MayMisread t h b (some m))
    (hroom : appendError? s.predictor b = none) :
    (t.run (Leg.updates h b (some m))).forget =
        ((s.hold h (newRecord s.predictor predicted pc isConditional)).run [.update h b]).forget ∧
      OverflowsOnly (t.errors (Leg.updates h b (some m))) := by
  obtain ⟨hpc, hdetour⟩ := hmisread
  obtain ⟨a, ha, hanchored, hright⟩ :=
    laws.perform_update_new hs h predicted pc isConditional b
  obtain ⟨a', ha', -, hwrong⟩ :=
    laws.perform_update_new hs h predicted pc isConditional m.wrong
  obtain rfl : a' = a := by rw [ha, ha', hpc]
  set created := s.hold h (newRecord s.predictor predicted pc isConditional)
  -- had the detour not been taken, the second update would come out as if it were the first
  have hsecond : (created.run [.update h m.wrong]).perform (.update h b) =
      (s.push h a' b, none) := by
    rw [run_cons, run_nil, hwrong]
    exact laws.perform_update_attempt h hs hanchored m.wrong hroom
  have hfirst : created.run [.update h b] = s.push h a' b := by
    rw [run_cons, run_nil, hright, attempt_of_room hroom]
  obtain ⟨hentered, hentryErrors⟩ := run_congr hcreated [.update h m.wrong]
  have hsound : Sound (t.run [.update h m.wrong]).predictor := laws.sound_run ht _
  obtain ⟨hreturned, hdetourErrors⟩ := laws.run_detour hfull hsound hdetour
  have hback := hreturned.trans hentered
  obtain ⟨hend, hendErrors⟩ := run_asUpdate hback [.revise h m.repairs b]
  have hrevise : [Call.revise h m.repairs b].map Call.asUpdate = [.update h b] := by
    cases m.repairs <;> rfl
  rw [hrevise] at hend hendErrors
  have hcalls : Leg.updates h b (some m) =
      [.update h m.wrong] ++ (m.detour.flatMap Event.calls ++ [.revise h m.repairs b]) := rfl
  rw [hcalls, run_append, run_append, errors_append, errors_append]
  constructor
  · rw [hend, run_cons, hsecond, hfirst]
    rfl
  · refine overflowsOnly_append ?_ (overflowsOnly_append hdetourErrors ?_)
    · rw [hentryErrors]
      simp only [errors, List.append_nil, hwrong]
      exact hfull hs
    · rw [hendErrors]
      simp only [errors, List.append_nil, hsecond]
      exact overflowsOnly_nil

theorem run_updates (laws : Rewinds Sound Anchored) (hfull : RefusesOverflowsOnly Sound)
    (hs : Sound s.predictor) {h : Nat} {predicted : Bool} {pc : UInt64} {isConditional : Bool}
    {b : Branch} {misread? : Option Misread} {t : Session P R} (ht : Sound t.predictor)
    (hcreated : t.forget =
      (s.hold h (newRecord s.predictor predicted pc isConditional)).forget)
    (hmisread : Leg.MayMisread t h b misread?)
    (hupdate : (s.hold h (newRecord s.predictor predicted pc isConditional)).errors
      [.update h b] = []) :
    (t.run (Leg.updates h b misread?)).forget =
        ((s.hold h (newRecord s.predictor predicted pc isConditional)).run [.update h b]).forget ∧
      OverflowsOnly (t.errors (Leg.updates h b misread?)) := by
  cases misread? with
  | none =>
      obtain ⟨hrun, herrors⟩ := run_congr hcreated [.update h b]
      refine ⟨hrun, ?_⟩
      change OverflowsOnly (t.errors [.update h b])
      rw [herrors, hupdate]
      exact overflowsOnly_nil
  | some m =>
      obtain ⟨a, -, -, hright⟩ := laws.perform_update_new hs h predicted pc isConditional b
      have hroom : appendError? s.predictor b = none := by
        rw [errors, hright] at hupdate
        simpa [errors] using hupdate
      exact laws.run_misread hfull hs ht hcreated hmisread hroom

theorem run_leg (laws : Rewinds Sound Anchored) (hfull : RefusesOverflowsOnly Sound)
    (hs : Sound s.predictor) {leg : Leg} (hvalid : leg.Valid s)
    (hstraight : s.errors leg.straight = []) :
    (s.run leg.calls).forget = (s.run leg.straight).forget ∧
      OverflowsOnly (s.errors leg.calls) := by
  cases leg with
  | follow event =>
      refine ⟨rfl, ?_⟩
      change OverflowsOnly (s.errors event.calls)
      have : s.errors event.calls = [] := hstraight
      rw [this]
      exact overflowsOnly_nil
  | detour events => exact laws.run_detour hfull hs hvalid
  | fetch h predicted pc isConditional b before misread? =>
      obtain ⟨hbefore, hmisread⟩ := hvalid
      have hcreate := s.perform_create h predicted pc isConditional
      set created := s.hold h (newRecord s.predictor predicted pc isConditional) with hcreated
      have hrunCreate : s.run [.create h predicted pc isConditional] = created := by
        rw [run_cons, hcreate, run_nil]
      have hcreateErrors : s.errors [.create h predicted pc isConditional] = [] := by
        rw [errors, hcreate]
        rfl
      have hsound : Sound created.predictor := hs
      rw [hrunCreate] at hbefore
      rw [run_cons, hcreate] at hmisread
      have hstraightCalls : Leg.straight (.fetch h predicted pc isConditional b before misread?) =
          [.create h predicted pc isConditional] ++ [.update h b] := rfl
      have hcalls : Leg.calls (.fetch h predicted pc isConditional b before misread?) =
          [.create h predicted pc isConditional] ++
            (before.flatMap Event.calls ++ Leg.updates h b misread?) := rfl
      rw [hstraightCalls, errors_append, hrunCreate] at hstraight
      obtain ⟨hreturned, hbeforeErrors⟩ := laws.run_detour hfull hsound hbefore
      obtain ⟨hend, hendErrors⟩ := laws.run_updates hfull hs (laws.sound_run hsound _) hreturned
        hmisread (List.append_eq_nil_iff.1 hstraight).2
      rw [hstraightCalls, hcalls, run_append, run_append, run_append, errors_append, errors_append,
        hrunCreate, hcreateErrors, List.nil_append]
      exact ⟨hend, overflowsOnly_append hbeforeErrors hendErrors⟩

/-- A run with detours comes out where the straight run does, but for the count of repairs, and
meets no errors but overflows on its detours. -/
theorem run_legs (laws : Rewinds Sound Anchored) (hfull : RefusesOverflowsOnly Sound)
    (hs : Sound s.predictor) {t : Session P R} (hst : s.forget = t.forget) {legs : List Leg}
    (hvalid : s.Itinerary legs) (hstraight : t.errors (legs.flatMap Leg.straight) = []) :
    (s.run (legs.flatMap Leg.calls)).forget = (t.run (legs.flatMap Leg.straight)).forget ∧
      OverflowsOnly (s.errors (legs.flatMap Leg.calls)) := by
  induction legs generalizing s t with
  | nil => exact ⟨hst, overflowsOnly_nil⟩
  | cons leg legs ih =>
      obtain ⟨hleg, hrest⟩ := hvalid
      rw [List.flatMap_cons, errors_append] at hstraight
      obtain ⟨hfirst, hlater⟩ := List.append_eq_nil_iff.1 hstraight
      obtain ⟨hsame, hsameErrors⟩ := run_congr hst leg.straight
      obtain ⟨hrun, herrors⟩ := laws.run_leg hfull hs hleg (hsameErrors.trans hfirst)
      obtain ⟨hend, hendErrors⟩ :=
        ih (laws.sound_run hs leg.calls) (hrun.trans hsame) hrest hlater
      rw [List.flatMap_cons, List.flatMap_cons, run_append, run_append, errors_append]
      exact ⟨hend, overflowsOnly_append herrors hendErrors⟩

end Rewinds

end BranchPrediction
