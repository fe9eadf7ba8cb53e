import BranchPrediction.Proofs.Learning.Entries
import BranchPrediction.Proofs.Pipeline.Keepers
import Mathlib.Data.List.Induction

/-!
# Where predicted targets come from

A target is learned when an indirect jump or call commits, and from nothing else.  It may then sit
in a table for long, be read into the record of a branch in flight, and be replaced at a commit of
that branch, in an entry that has meanwhile been given to another.  Through all of that an entry has
a tag exactly when it has a target (`Ittage.Legit`), and every target in a table or in a record was
committed since the last reset (`Ittage.Sourced`).

The delicate step is the replacement of the target in the entry of a stale match.  It is safe since
an entry that was found by its tag has a tag for good: nothing but a reset takes tags away.
-/

namespace BranchPrediction

namespace Ittage

open Ladder

/-! ## Entries -/

/-- The entry has been allocated. -/
def Tagged (e : TaggedEntry Target) : Prop :=
  e.tag?.isSome = true

/-- The entry has a target exactly when it has a tag, and the target is a known one. -/
structure Legit (known : UInt64 → Prop) (e : TaggedEntry Target) : Prop where
  isSome_eq : e.tag?.isSome = e.payload.address?.isSome
  known : ∀ target, e.payload.address? = some target → known target

theorem legit_blank (known : UInt64 → Prop) (confidence useful : Counter.Range) :
    Legit known (TaggedEntry.blank confidence useful) :=
  ⟨rfl, fun _ h => by cases h⟩

theorem legit_invalidate (known : UInt64 → Prop) (e : TaggedEntry Target) :
    Legit known e.invalidate :=
  ⟨rfl, fun _ h => by cases h⟩

theorem Legit.mono {known known' : UInt64 → Prop} (hknown : ∀ target, known target → known' target)
    {e : TaggedEntry Target} (h : Legit known e) : Legit known' e :=
  ⟨h.isSome_eq, fun target htarget => hknown target (h.known target htarget)⟩

theorem legit_allocate {known : UInt64 → Prop} {target : UInt64} (htarget : known target)
    (e : TaggedEntry Target) (tag : Nat) (confidence : Int) :
    Legit known (e.allocate tag confidence ⟨some target⟩) :=
  ⟨rfl, fun _ h => Option.some.inj h ▸ htarget⟩

theorem tagged_weaken (target : UInt64) {e : TaggedEntry Target} (h : Tagged e) :
    Tagged (weaken target e) := by
  unfold weaken
  simp only
  split
  · exact h
  · exact h

theorem legit_weaken {known : UInt64 → Prop} {target : UInt64} (htarget : known target)
    {e : TaggedEntry Target} (htagged : Tagged e) (h : Legit known e) :
    Legit known (weaken target e) := by
  unfold weaken
  simp only
  split
  · exact ⟨htagged, fun _ h => Option.some.inj h ▸ htarget⟩
  · exact ⟨h.isSome_eq, h.known⟩

/-! ## What a commit teaches -/

/-- An entry with a tag keeps one while ITTAGE learns, at whatever slot it is looked for. -/
theorem tagged_learn {ladder : Ladder Target} {slots : Array Slot} {bank : Nat}
    (h : ladder.HoldsAt Tagged slots bank) (r : Record) (target : UInt64) :
    (learn r target ladder).HoldsAt Tagged slots bank := by
  have hlearns : Learns r.lookup.slots (fun _ f => ∀ e, Tagged e → Tagged (f e)) ladder
      (learn r target ladder) := by
    apply learns_learn
    · exact fun _ up e he => he
    · exact fun _ up e he => he
    · exact fun _ _ e => tagged_weaken target
    · exact fun _ tag e _ => rfl
  exact hlearns.holdsAt (fun _ _ hf => hf) (fun _ he => he) h

/-- What ITTAGE learns is legitimate, as long as the entry of the longest match has a tag. -/
theorem legit_learn {known : UInt64 → Prop} {target : UInt64} (htarget : known target)
    {ladder : Ladder Target} (h : ladder.Entrywise (Legit known)) {r : Record}
    (hhit : ∀ bank, r.lookup.hit? = some bank → ladder.HoldsAt Tagged r.lookup.slots bank) :
    (learn r target ladder).Entrywise (Legit known) := by
  have hlearns : Learns r.lookup.slots (fun bank f => (∀ e, Tagged e → Tagged (f e)) ∧
      ∀ e, (r.lookup.hit? = some bank → Tagged e) → Legit known e → Legit known (f e))
      ladder (learn r target ladder) := by
    apply learns_learn
    · exact fun _ up => ⟨fun _ he => he, fun _ _ he => ⟨he.isSome_eq, he.known⟩⟩
    · exact fun _ up => ⟨fun _ he => he, fun _ _ he => ⟨he.isSome_eq, he.known⟩⟩
    · exact fun bank hbank => ⟨fun _ => tagged_weaken target,
        fun _ htagged => legit_weaken htarget (htagged hbank)⟩
    · exact fun _ tag => ⟨fun _ _ => rfl, fun e _ _ => legit_allocate htarget e tag 0⟩
  refine hlearns.entrywise (fun _ _ hf => hf.1) (fun _ he => he) (fun _ _ hf => hf.2) ?_ hhit h
  exact fun _ he => ⟨he.isSome_eq, he.known⟩

/-! ## What is looked up -/

/-- A target of a lookup: the predicted one, that of the longest match or that of its alternate. -/
def Lookup.Mentions (l : Lookup) (target : UInt64) : Prop :=
  l.target? = some target ∨ l.longestTarget? = some target ∨ l.altTarget? = some target

/-- The longest match of a record has a tag, and its targets are known ones. -/
structure Sourced (known : UInt64 → Prop) (ladder : Ladder Target) (l : Lookup) : Prop where
  tagged : ∀ bank, l.hit? = some bank → ladder.HoldsAt Tagged l.slots bank
  known : ∀ target, l.Mentions target → known target

theorem Sourced.of_eq_none {known : UInt64 → Prop} {ladder : Ladder Target} {l : Lookup}
    (hhit : l.hit? = none) (htarget : l.target? = none) (hlongest : l.longestTarget? = none)
    (halt : l.altTarget? = none) : Sourced known ladder l := by
  constructor
  · intro bank hbank
    cases hhit.symm.trans hbank
  · rintro target (h | h | h)
    · cases htarget.symm.trans h
    · cases hlongest.symm.trans h
    · cases halt.symm.trans h

theorem of_isMatch {known : UInt64 → Prop} {p : Ittage} (h : p.ladder.Entrywise (Legit known))
    {slots : Array Slot} {bank : Nat} (hmatch : p.ladder.isMatch slots bank = true) :
    p.ladder.HoldsAt Tagged slots bank ∧
      ∃ e target, p.ladder.entry? slots bank = some e ∧ p.targetOf slots bank = some target ∧
        e.payload.address? = some target ∧ known target := by
  obtain ⟨e, slot, he, -, hmatch⟩ := (p.ladder.isMatch_eq_true_iff slots).1 hmatch
  simp only [TaggedEntry.isMatch, Bool.and_eq_true, decide_eq_true_eq] at hmatch
  obtain ⟨target, htarget⟩ := Option.isSome_iff_exists.1 hmatch.2
  refine ⟨?_, e, target, he, ?_, htarget, (h.holdsAt slots bank e he).known target htarget⟩
  · intro e' he'
    rw [Tagged, ← Option.some.inj (he.symm.trans he'), hmatch.1]
    rfl
  · rw [targetOf, he, Option.bind_some, htarget]

theorem find_of_none {p : Ittage} {pc : UInt64} (isConditional : Bool)
    (hmatches : p.ladder.findMatches (p.ladder.slots pc p.history.path) = (none, none)) :
    p.find pc isConditional =
      { slots := p.ladder.slots pc p.history.path, conditional := isConditional } := by
  simp only [find, hmatches, Option.bind_none]

theorem find_of_some {p : Ittage} {pc : UInt64} (isConditional : Bool) {hit : Nat}
    {alt? : Option Nat} {e : TaggedEntry Target}
    (hmatches : p.ladder.findMatches (p.ladder.slots pc p.history.path) = (some hit, alt?))
    (he : p.ladder.entry? (p.ladder.slots pc p.history.path) hit = some e) :
    let slots := p.ladder.slots pc p.history.path
    let defers := e.isPseudoNew && alt?.isSome && p.ladder.prefersAlt hit isConditional
    p.find pc isConditional =
      { slots, hit? := some hit, alt?
        source := if defers then .altMatch else .longestMatch
        longestTarget? := e.payload.address?
        altTarget? := alt?.bind (p.targetOf slots)
        pseudoNew := e.isPseudoNew
        target? := if defers then alt?.bind (p.targetOf slots) else e.payload.address?
        conditional := isConditional } := by
  simp only [find, hmatches, he]
  split
  · rfl
  · rfl

theorem sourced_of_hit {known : UInt64 → Prop} {p : Ittage}
    (h : p.ladder.Entrywise (Legit known)) {pc : UInt64} (isConditional : Bool) {hit : Nat}
    {alt? : Option Nat}
    (hmatches : p.ladder.findMatches (p.ladder.slots pc p.history.path) = (some hit, alt?))
    (hhit : p.ladder.isMatch (p.ladder.slots pc p.history.path) hit = true)
    (halt : ∀ alt, alt? = some alt →
      p.ladder.isMatch (p.ladder.slots pc p.history.path) alt = true) :
    Sourced known p.ladder (p.find pc isConditional) ∧
      (p.find pc isConditional).target?.isSome = true := by
  obtain ⟨htagged, e, target, he, -, htarget, hknown⟩ := of_isMatch h hhit
  have halternate : ∀ alt, alt? = some alt → ∃ other,
      p.targetOf (p.ladder.slots pc p.history.path) alt = some other ∧ known other := by
    intro alt hsome
    obtain ⟨-, -, other, -, hother, -, hknown'⟩ := of_isMatch h (halt alt hsome)
    exact ⟨other, hother, hknown'⟩
  rw [find_of_some isConditional hmatches he]
  simp only [htarget]
  refine ⟨⟨?_, ?_⟩, ?_⟩
  · intro bank hbank
    exact Option.some.inj hbank ▸ htagged
  · rintro other (hother | hother | hother)
    · simp only at hother
      split at hother
      · obtain ⟨alt, hsome, hother⟩ := Option.bind_eq_some_iff.1 hother
        obtain ⟨other', hother', hknown'⟩ := halternate alt hsome
        exact Option.some.inj (hother'.symm.trans hother) ▸ hknown'
      · exact Option.some.inj hother ▸ hknown
    · exact Option.some.inj hother ▸ hknown
    · obtain ⟨alt, hsome, hother⟩ := Option.bind_eq_some_iff.1 hother
      obtain ⟨other', hother', hknown'⟩ := halternate alt hsome
      exact Option.some.inj (hother'.symm.trans hother) ▸ hknown'
  · split
    · next hdefers =>
        simp only [Bool.and_eq_true] at hdefers
        obtain ⟨alt, hsome⟩ := Option.isSome_iff_exists.1 hdefers.1.2
        obtain ⟨other, hother, -⟩ := halternate alt hsome
        rw [hsome, Option.bind_some, hother]
        rfl
    · rfl

/-- A lookup finds known targets, and none exactly when no table answers. -/
theorem sourced_find {known : UInt64 → Prop} {p : Ittage} (h : p.ladder.Entrywise (Legit known))
    (pc : UInt64) (isConditional : Bool) :
    Sourced known p.ladder (p.find pc isConditional) ∧
      ((p.find pc isConditional).target? = none ↔
        ∀ bank, p.ladder.isMatch (p.ladder.slots pc p.history.path) bank = false) := by
  rcases p.ladder.findMatches_cases (p.ladder.slots pc p.history.path) with
    ⟨hmatches, hnone⟩ | ⟨hit, alt?, hmatches, hhit, halt⟩
  · rw [find_of_none isConditional hmatches]
    exact ⟨.of_eq_none rfl rfl rfl rfl, fun _ => hnone, fun _ => rfl⟩
  · obtain ⟨hsourced, hsome⟩ :=
      sourced_of_hit h isConditional hmatches hhit fun alt hsome => (halt alt hsome).1
    refine ⟨hsourced, fun hnone => ?_, fun hnone => ?_⟩
    · rw [hnone] at hsome
      cases hsome
    · cases hhit.symm.trans (hnone hit)

/-- No table answers for a branch exactly when none holds its tag at its index. -/
theorem forall_isMatch_eq_false_iff {known : UInt64 → Prop} {ladder : Ladder Target}
    (h : ladder.Entrywise (Legit known)) (pc : UInt64) (path : PathHistory) :
    (∀ bank, ladder.isMatch (ladder.slots pc path) bank = false) ↔
      ∀ t ∈ ladder.tables, (t.entry (t.index pc path)).tag? ≠ some (t.tag pc) := by
  constructor
  · intro hnone t ht htag
    obtain ⟨bank, hbank⟩ := Array.mem_iff_getElem?.1 ht
    obtain ⟨hentry, hslot⟩ := ladder.entry?_slots hbank pc path
    have hinstalled := (h t ht _ (t.entry_mem (t.index pc path))).isSome_eq
    rw [htag] at hinstalled
    have hmatch : ladder.isMatch (ladder.slots pc path) bank = true := by
      refine (ladder.isMatch_eq_true_iff _).2 ⟨_, _, hentry, hslot, ?_⟩
      simp only [TaggedEntry.isMatch, Bool.and_eq_true, decide_eq_true_eq]
      exact ⟨htag, hinstalled.symm⟩
    cases (hnone bank).symm.trans hmatch
  · intro hnone bank
    rw [← Bool.not_eq_true]
    intro hmatch
    obtain ⟨e, slot, he, hslot, hmatch⟩ := (ladder.isMatch_eq_true_iff _).1 hmatch
    cases ht : ladder.tables[bank]? with
    | none => simp [ entry?, ht] at he
    | some t =>
        obtain ⟨hentry, hslot'⟩ := ladder.entry?_slots ht pc path
        obtain rfl := Option.some.inj (hentry.symm.trans he)
        obtain rfl := Option.some.inj (hslot'.symm.trans hslot)
        simp only [TaggedEntry.isMatch, Bool.and_eq_true, decide_eq_true_eq] at hmatch
        exact hnone t (Array.mem_of_getElem? ht) hmatch.1

/-! ## What the steps make of the ladder -/

theorem exists_ladder_apply (p : Ittage) (r : Record) (b : Branch) :
    ∃ g, (apply p r b).1.ladder = mapFolds g p.ladder := by
  obtain ⟨g, -, hladder⟩ : ∃ g, KeepsShape g ∧ (p.appended b).2.2 = mapFolds g p.ladder :=
    SpeculativeHistory.exists_append_views _ _ _ _ _
  rw [apply_eq]
  exact ⟨g, hladder⟩

theorem exists_ladder_undo (p : Ittage) (r : Record) :
    ∃ g, (undo p r).1.ladder = mapFolds g p.ladder := by
  cases hc : r.contribution? with
  | none =>
      rw [undo_of_none p hc]
      exact ⟨fun f => f, (FoldFamily.mapFolds_eq_self fun _ _ => rfl).symm⟩
  | some c =>
      obtain ⟨g, -, hladder⟩ :=
        SpeculativeHistory.exists_rollback_views p.history c.checkpoint p.ladder
      rw [undo_eq p hc]
      exact ⟨g, hladder⟩

theorem lookup_finalize (p : Ittage) (r : Record) (pc : UInt64) :
    (p.finalize r pc).lookup = r.lookup ∨
      (p.finalize r pc).lookup = p.find pc r.isConditional := by
  unfold finalize
  split
  · exact .inr rfl
  · exact .inl rfl

/-- Whatever comes of an update, it moves folds and nothing else of the ladder, and the record has
the lookup that it had or a new one. -/
theorem update_cases (p : Ittage) (r : Record) (b : Branch) :
    (∃ g, (p.update r b).predictor.ladder = mapFolds g p.ladder) ∧
      ((p.update r b).record.lookup = r.lookup ∨
        (p.update r b).record.lookup = p.find b.pc r.isConditional) := by
  have hself : ∃ g, p.ladder = mapFolds g p.ladder :=
    ⟨fun f => f, (FoldFamily.mapFolds_eq_self fun _ _ => rfl).symm⟩
  have hfinal := p.lookup_finalize r b.pc
  obtain ⟨g, hundo⟩ := p.exists_ladder_undo (p.finalize r b.pc)
  simp only [update]
  split
  · exact ⟨hself, .inl rfl⟩
  · split
    · exact ⟨hself, hfinal⟩
    · split
      · exact ⟨⟨g, hundo⟩, by rwa [lookup_undo]⟩
      · obtain ⟨k, happly⟩ := exists_ladder_apply (undo p (p.finalize r b.pc)).1
          (undo p (p.finalize r b.pc)).2 b
        refine ⟨⟨k ∘ g, ?_⟩, by rwa [lookup_apply, lookup_undo]⟩
        rw [happly, hundo, FoldFamily.mapFolds_mapFolds]

theorem conclude_cases (p : Ittage) (r : Record) (b : Branch) :
    (conclude p r b).ladder = p.ladder ∨
      b.kind.usesTargetTables = true ∧ (conclude p r b).ladder = learn r b.target p.ladder := by
  rw [conclude_eq]
  simp only [concluded]
  split
  · next hkind => exact .inr ⟨hkind, rfl⟩
  · exact .inl rfl

/-- A commit teaches the ladder if it succeeds and the branch is an indirect jump or call; otherwise
it moves folds at most. -/
theorem commit_cases (p : Ittage) (r : Record) (b : Branch) :
    (∃ g, (p.commit r b).predictor.ladder = mapFolds g p.ladder) ∨
      ((p.commit r b).error? = none ∧ b.kind.usesTargetTables = true ∧ ∃ g r',
        (p.commit r b).predictor.ladder = learn r' b.target (mapFolds g p.ladder) ∧
          (r'.lookup = r.lookup ∨ r'.lookup = p.find b.pc r.isConditional)) := by
  have hself : p.ladder = mapFolds (fun f => f) p.ladder :=
    (FoldFamily.mapFolds_eq_self fun _ _ => rfl).symm
  have hfinal := p.lookup_finalize r b.pc
  simp only [commit]
  split
  · exact .inl ⟨_, hself⟩
  · split
    · rcases p.conclude_cases (p.finalize r b.pc) b with hladder | ⟨hkind, hladder⟩
      · exact .inl ⟨_, hladder.trans hself⟩
      · refine .inr ⟨rfl, hkind, fun f => f, p.finalize r b.pc, ?_, hfinal⟩
        rw [← hself]
        exact hladder
    · split
      · exact .inl ⟨_, hself⟩
      · obtain ⟨g, happly⟩ := p.exists_ladder_apply (p.finalize r b.pc) b
        rcases conclude_cases (apply p (p.finalize r b.pc) b).1 (apply p (p.finalize r b.pc) b).2 b
          with hladder | ⟨hkind, hladder⟩
        · exact .inl ⟨g, hladder.trans happly⟩
        · refine .inr ⟨rfl, hkind, g, _, hladder.trans (by rw [happly]), ?_⟩
          rwa [lookup_apply]

theorem squash_cases (p : Ittage) (r : Record) :
    ∃ g, (p.squash r).predictor.ladder = mapFolds g p.ladder := by
  have hself : ∃ g, p.ladder = mapFolds g p.ladder :=
    ⟨fun f => f, (FoldFamily.mapFolds_eq_self fun _ _ => rfl).symm⟩
  simp only [squash]
  split
  · exact hself
  · split
    · exact hself
    · exact p.exists_ladder_undo r

/-! ## Known targets along a ladder's life -/

section Sourced

variable {known known' : UInt64 → Prop} {ladder : Ladder Target} {l : Lookup}

theorem Sourced.mapFolds (h : Sourced known ladder l) (g : FoldedHistory → FoldedHistory) :
    Sourced known (BranchPrediction.mapFolds g ladder) l :=
  ⟨fun bank hbank => (h.tagged bank hbank).mapFolds g, h.known⟩

theorem Sourced.mono (h : Sourced known ladder l)
    (hknown : ∀ target, known target → known' target) : Sourced known' ladder l :=
  ⟨h.tagged, fun target hmentions => hknown target (h.known target hmentions)⟩

theorem Sourced.learn (h : Sourced known ladder l) (r : Record) (target : UInt64) :
    Sourced known (Ittage.learn r target ladder) l :=
  ⟨fun bank hbank => tagged_learn (h.tagged bank hbank) r target, h.known⟩

end Sourced

end Ittage

/-! ## Sessions -/

namespace Session

open Ittage

/-- No reset is made while a record is in use. -/
def ResetsAtRest {P R Q : Type} [SpeculativePredictor P R Q] (s : Session P R) :
    List Call → Prop
  | [] => True
  | call :: calls =>
    (call = .reset → ∀ h, s.records h = none) ∧ ResetsAtRest (s.perform call).1 calls

theorem resetsAtRest_append {P R Q : Type} [SpeculativePredictor P R Q] (s : Session P R)
    (first second : List Call) :
    s.ResetsAtRest (first ++ second) ↔
      s.ResetsAtRest first ∧ (s.run first).ResetsAtRest second := by
  induction first generalizing s with
  | nil => simp [ResetsAtRest]
  | cons call first ih => simp only [List.cons_append, ResetsAtRest, ih, and_assoc, run_cons]

/-- Among the calls there is a commit of an indirect jump or call to the target that succeeds, and
no reset follows it. -/
def Teaches (s : Session Ittage Record) (calls : List Call) (target : UInt64) : Prop :=
  ∃ before h b after, calls = before ++ .commit h b :: after ∧ Call.reset ∉ after ∧
    b.kind.usesTargetTables = true ∧ b.target = target ∧
    (∃ r, (s.run before).records h = some r) ∧ ((s.run before).perform (.commit h b)).2 = none

theorem Teaches.append {s : Session Ittage Record} {calls : List Call} {target : UInt64}
    (hteaches : s.Teaches calls target) {call : Call} (hcall : call ≠ .reset) :
    s.Teaches (calls ++ [call]) target := by
  obtain ⟨before, h, b, after, rfl, hreset, hcommit⟩ := hteaches
  refine ⟨before, h, b, after ++ [call], by simp, ?_, hcommit⟩
  simp [hreset, hcall.symm]

/-- The targets in the tables and in the records are known ones. -/
structure Provenance (known : UInt64 → Prop) (s : Session Ittage Record) : Prop where
  legit : s.predictor.ladder.Entrywise (Legit known)
  sourced : ∀ h r, s.records h = some r → Sourced known s.predictor.ladder r.lookup

variable {known known' : UInt64 → Prop} {s : Session Ittage Record}

/-- Known targets stay known when the predictor makes a step and one handle is given a record with
known targets, or none. -/
theorem Provenance.put (hs : s.Provenance known) {q : Ittage}
    (hlegit : q.ladder.Entrywise (Legit known'))
    (hstep : ∀ l, Sourced known s.predictor.ladder l → Sourced known' q.ladder l) (h : Nat)
    {r? : Option Record} (hr : ∀ r, r? = some r → Sourced known' q.ladder r.lookup)
    (committed : List Record) :
    Provenance known' ⟨q, Session.put s.records h r?, committed⟩ := by
  refine ⟨hlegit, fun k r hrecord => ?_⟩
  change Session.put s.records h r? k = some r at hrecord
  by_cases hk : k = h
  · rw [hk, put_same] at hrecord
    exact hr r hrecord
  · rw [put_of_ne _ hk] at hrecord
    exact hstep _ (hs.sourced k r hrecord)

theorem Provenance.put_mapFolds (hs : s.Provenance known) {q : Ittage}
    {g : FoldedHistory → FoldedHistory} (hladder : q.ladder = mapFolds g s.predictor.ladder)
    (h : Nat) {r? : Option Record}
    (hr : ∀ r, r? = some r → Sourced known s.predictor.ladder r.lookup)
    (committed : List Record) : Provenance known ⟨q, Session.put s.records h r?, committed⟩ := by
  refine hs.put ?_ ?_ h ?_ committed
  · rw [hladder]
    exact hs.legit.mapFolds g
  · intro l hl
    rw [hladder]
    exact hl.mapFolds g
  · intro r hsome
    rw [hladder]
    exact (hr r hsome).mapFolds g

theorem Provenance.mono (hs : s.Provenance known)
    (hknown : ∀ target, known target → known' target) : s.Provenance known' :=
  ⟨hs.legit.mono fun _ he => he.mono hknown,
    fun h r hrecord => (hs.sourced h r hrecord).mono hknown⟩

theorem Provenance.revise (hs : s.Provenance known) (h : Nat) (b : Branch) :
    (s.modify h fun p r => SpeculativePredictor.update p r b).1.Provenance known := by
  unfold modify
  split
  · exact hs
  · next r hrecord =>
      obtain ⟨⟨g, hladder⟩, hlookup⟩ := update_cases s.predictor r b
      refine hs.put_mapFolds hladder h ?_ s.committed
      intro r' hr'
      obtain rfl := Option.some.inj hr'
      rcases hlookup with hkept | hfound
      · rw [hkept]
        exact hs.sourced h r hrecord
      · rw [hfound]
        exact (sourced_find hs.legit _ _).1

/-- The step: what a call makes known is the target of an indirect jump or call that it commits. -/
theorem Provenance.perform (hs : s.Provenance known) {call : Call}
    (hrest : call = .reset → ∀ h, s.records h = none)
    (hknown : call ≠ .reset → ∀ target, known target → known' target)
    (hteach : ∀ h b, call = .commit h b → b.kind.usesTargetTables = true →
      (∃ r, s.records h = some r) → (s.perform call).2 = none → known' b.target) :
    (s.perform call).1.Provenance known' := by
  cases call with
  | predict h pc isConditional =>
      refine Provenance.mono ?_ (hknown (by simp))
      refine hs.put hs.legit (fun _ hl => hl) h ?_ s.committed
      intro r hr
      obtain rfl := Option.some.inj hr
      exact (sourced_find hs.legit pc isConditional).1
  | placeholder h pc isConditional =>
      refine Provenance.mono ?_ (hknown (by simp))
      refine hs.put hs.legit (fun _ hl => hl) h ?_ s.committed
      intro r hr
      obtain rfl := Option.some.inj hr
      exact .of_eq_none rfl rfl rfl rfl
  | update h b => exact (hs.revise h b).mono (hknown (by simp))
  | repair h b => exact (hs.revise h b).mono (hknown (by simp))
  | commit h b =>
      have hmono := hknown (by simp)
      have htaught := hteach h b rfl
      simp only [Session.perform, release] at htaught ⊢
      cases hrecord : s.records h with
      | none => exact hs.mono hmono
      | some r =>
          simp only [hrecord] at htaught ⊢
          rcases commit_cases s.predictor r b with
            ⟨g, hladder⟩ | ⟨herror, hkind, g, r', hladder, hlookup⟩
          · exact (hs.put_mapFolds hladder h (fun _ hr => by cases hr) _).mono hmono
          · change (SpeculativePredictor.commit s.predictor r b).predictor.ladder = _ at hladder
            have htarget : known' b.target := htaught hkind ⟨r, rfl⟩ herror
            have hfolds := (hs.legit.mono fun _ he => he.mono hmono).mapFolds g
            -- the commit uses the lookup of the record, or makes one if there was none
            have hsourced : Sourced known s.predictor.ladder r'.lookup := by
              rcases hlookup with hkept | hfound
              · rw [hkept]
                exact hs.sourced h r hrecord
              · rw [hfound]
                exact (sourced_find hs.legit _ _).1
            refine hs.put ?_ ?_ h (fun _ hr => by cases hr) _
            · rw [hladder]
              exact legit_learn htarget hfolds (hsourced.mapFolds g).tagged
            · intro l hl
              rw [hladder]
              exact ((hl.mono hmono).mapFolds g).learn r' b.target
  | squash h =>
      refine Provenance.mono ?_ (hknown (by simp))
      simp only [Session.perform, release]
      split
      · exact hs
      · next r _ =>
          obtain ⟨g, hladder⟩ := squash_cases s.predictor r
          exact hs.put_mapFolds hladder h (fun _ hr => by cases hr) _
  | reset =>
      refine ⟨?_, fun h r hrecord => ?_⟩
      · refine (Ladder.entrywise_reset s.predictor.ladder).mono ?_
        rintro e ⟨e', rfl⟩
        exact legit_invalidate known' e'
      · cases (hrest rfl h).symm.trans hrecord

/-- Along a session that resets at rest, the targets in the tables and in the records were taught
since the last reset. -/
theorem provenance_run {p : Ittage} (hblank : ∃ c, p.ladder = .blank c) {calls : List Call}
    (hrest : (start p).ResetsAtRest calls) :
    ((start p).run calls).Provenance ((start p).Teaches calls) := by
  induction calls using List.reverseRecOn with
  | nil =>
      refine ⟨?_, fun h r hrecord => by cases hrecord⟩
      obtain ⟨c, hladder⟩ := hblank
      change p.ladder.Entrywise _
      rw [hladder]
      refine (Ladder.entrywise_blank c).mono ?_
      rintro e ⟨confidence, useful, rfl⟩
      exact legit_blank _ confidence useful
  | append_singleton calls call ih =>
      obtain ⟨hbefore, hcall, -⟩ := (resetsAtRest_append _ calls [call]).1 hrest
      rw [run_append]
      refine (ih hbefore).perform hcall ?_ ?_
      · exact fun hne target hteaches => hteaches.append hne
      · rintro h b rfl hkind hrecord herror
        exact ⟨calls, h, b, [], rfl, by simp, hkind, rfl, hrecord, herror⟩

end Session

open Session in
/-- Predicted targets are never invented.  Along every session of a predictor that was built, with
resets only while no record is in use: an entry has a tag if and only if it has a target; nothing is
predicted if and only if no table holds the tag of the branch at its index; and every target that a
prediction or a record mentions is that of a successful commit of an indirect jump or call since the
last reset.  At the time of a prediction that commit has been made already. -/
theorem predicted_targets_were_committed {c : Ittage.Config} {p : Ittage}
    (hbuild : c.build = .ok p) {calls : List Call} (hrest : (start p).ResetsAtRest calls) :
    let s := (start p).run calls
    let q := s.predictor
    (∀ t ∈ q.ladder.tables, ∀ e ∈ t.entries,
        (e.tag?.isSome = true ↔ e.payload.address?.isSome = true)) ∧
      (∀ pc isConditional, (q.predict pc isConditional).1 = none ↔
        ∀ t ∈ q.ladder.tables, (t.entry (t.index pc q.history.path)).tag? ≠ some (t.tag pc)) ∧
      (∀ pc isConditional target, (q.predict pc isConditional).1 = some target ∨
          (q.predict pc isConditional).2.lookup.Mentions target →
        (start p).Teaches calls target) ∧
      ∀ h r target, s.records h = some r → r.lookup.Mentions target →
        (start p).Teaches calls target := by
  intro s q
  have hblank : ∃ c, p.ladder = .blank c := by
    obtain ⟨-, -, history, -, rfl⟩ := Ittage.exists_of_build hbuild
    exact ⟨c.ladder, rfl⟩
  obtain ⟨hlegit, hsourced⟩ := provenance_run hblank hrest
  refine ⟨?_, ?_, ?_, ?_⟩
  · intro t ht e he
    rw [(hlegit t ht e he).isSome_eq]
  · intro pc isConditional
    rw [← Ittage.forall_isMatch_eq_false_iff hlegit]
    exact (Ittage.sourced_find hlegit pc isConditional).2
  · intro pc isConditional target htarget
    have hfound := (Ittage.sourced_find hlegit pc isConditional).1
    rcases htarget with hpredicted | hmentions
    · exact hfound.known target (.inl hpredicted)
    · exact hfound.known target hmentions
  · intro h r target hrecord hmentions
    exact (hsourced h r hrecord).known target hmentions

/-- One target is committed and forgotten by a reset; then a jump commits another one, after it was
first updated with a third, a younger call was squashed with a fourth, and a return committed. -/
def courseOfTargets : List Call :=
  [.predict 0 8 false, .commit 0 ⟨8, .indirectJump, .taken, 32⟩, .reset,
    .predict 0 8 false, .update 0 ⟨8, .indirectJump, .taken, 128⟩,
    .placeholder 1 12 false, .update 1 ⟨12, .procedureReturn, .taken, 160⟩,
    .predict 2 16 false, .update 2 ⟨16, .indirectCall, .taken, 192⟩, .squash 2,
    .repair 0 ⟨8, .indirectJump, .taken, 64⟩, .commit 1 ⟨12, .procedureReturn, .taken, 160⟩,
    .commit 0 ⟨8, .indirectJump, .taken, 64⟩, .predict 3 8 false]

open Session in
theorem courseOfTargets_predicts_committed :
    (start Ittage.small).ResetsAtRest courseOfTargets ∧
      (((start Ittage.small).run courseOfTargets).predictor.predict 8 false).1 = some 64 ∧
      (start Ittage.small).Teaches courseOfTargets 64 ∧
      ∀ h r target, ((start Ittage.small).run courseOfTargets).records h = some r →
        r.lookup.Mentions target → (start Ittage.small).Teaches courseOfTargets target := by
  have hatRest : ∀ h, ((start Ittage.small).run (courseOfTargets.take 2)).records h = none := by
    intro h
    by_cases hh : h = 0
    · subst hh
      rfl
    · exact (put_of_ne _ hh none).trans (put_of_ne _ hh _)
  have hrest : (start Ittage.small).ResetsAtRest courseOfTargets := by
    refine (resetsAtRest_append _ (courseOfTargets.take 2) (courseOfTargets.drop 2)).2 ⟨?_, ?_⟩
    · simp [courseOfTargets, ResetsAtRest]
    · exact ⟨fun _ => hatRest, by simp [ResetsAtRest]⟩
  have hpredicted : (((start Ittage.small).run courseOfTargets).predictor.predict 8 false).1 =
      some 64 := by decide +kernel
  have hbuild : Ittage.smallConfig.build = .ok Ittage.small := rfl
  obtain ⟨-, -, htaught, hrecords⟩ := predicted_targets_were_committed hbuild hrest
  exact ⟨hrest, hpredicted, htaught 8 false 64 (.inl hpredicted), hrecords⟩

end BranchPrediction
