import BranchPrediction.Proofs.Learning.Mistakes
import BranchPrediction.Proofs.Pipeline.Installed
import BranchPrediction.Proofs.Pipeline.TargetAllocations
import BranchPrediction.Proofs.Safety.Ittage

/-!
# Which table provides a prediction, and what the prediction depends on

A prediction is made from three places at most: the entry of the longest match, what stands behind
it, and the use-alt-on-new counter of the longest match.  What stands behind is the entry of the
alternate, or else the base table; ITTAGE has no base table, and then nothing stands behind.
`Tage.Selected` and `Ittage.Selected` say what each field of a record is in these terms.

So two predictors make the same record of a branch if its slots are the same and the tables from the
alternate on hold the same entries of the branch (`Ladder.Agree`), with the counters that are read.
Entries of shorter histories, and entries at other places, have no part in it.
-/

namespace BranchPrediction

open Ladder SteppedPredictor

/-! ## What a search finds -/

namespace Ladder

variable {P : Type}

/-- The longest match of a branch is the greatest table whose entry carries its tag, and the
alternate the greatest such table below. -/
structure Finds (l : Ladder P) (pc : UInt64) (path : PathHistory) (hit? alt? : Option Nat) :
    Prop where
  nothing : hit? = none → alt? = none ∧ ∀ bank e, ¬l.Carries pc path bank e
  longest : ∀ hit, hit? = some hit → IsGreatest {bank | ∃ e, l.Carries pc path bank e} hit
  alternate : ∀ hit alt, hit? = some hit → alt? = some alt →
    IsGreatest {bank | (∃ e, l.Carries pc path bank e) ∧ bank < hit} alt
  noAlternate : ∀ hit, hit? = some hit → alt? = none →
    ∀ bank e, bank < hit → ¬l.Carries pc path bank e

/-- The branch has the same slots in both ladders, and the tables from the alternate on, or all of
them without one, hold the same entries of the branch. -/
structure Agree (l k : Ladder P) (pc : UInt64) (path path' : PathHistory) (alt? : Option Nat) :
    Prop where
  slots_eq : k.slots pc path' = l.slots pc path
  entries : ∀ bank, (∀ alt, alt? = some alt → alt ≤ bank) →
    ∀ e, k.Carries pc path' bank e ↔ l.Carries pc path bank e

variable [Payload P] {c : Config} {l k : Ladder P}

namespace Regular

variable (h : l.Regular c) (hvalid : c.validate = .ok ())

include h hvalid

theorem exists_useAlt {bank : Nat} (hbank : bank < l.size) (conditional : Bool) :
    ∃ counter, l.useAlt[l.useAltIndex bank conditional]? = some counter ∧
      l.prefersAlt bank conditional = decide (0 ≤ counter.value) := by
  obtain ⟨counter, -, hcounter⟩ := (h.ready hvalid).exists_useAlt hbank conditional
  refine ⟨counter, hcounter, ?_⟩
  rw [prefersAlt, hcounter]

variable (hinstalled : l.Entrywise TaggedEntry.Installed)

include hinstalled

theorem exists_carries_iff {pc : UInt64} {path : PathHistory} {bank : Nat} :
    (∃ e, l.Carries pc path bank e) ↔ l.isMatch (l.slots pc path) bank = true := by
  constructor
  · rintro ⟨e, hcarries⟩
    exact ((h.carries_iff hvalid hinstalled).1 hcarries).2
  · intro hmatch
    obtain ⟨e, -, he, -, -⟩ := (l.isMatch_eq_true_iff _).1 hmatch
    exact ⟨e, (h.carries_iff hvalid hinstalled).2 ⟨he, hmatch⟩⟩

theorem finds (pc : UInt64) (path : PathHistory) :
    l.Finds pc path (l.findMatches (l.slots pc path)).1 (l.findMatches (l.slots pc path)).2 := by
  have hcarries : ∀ bank, (∃ e, l.Carries pc path bank e) ↔
      l.isMatch (l.slots pc path) bank = true :=
    fun _ => h.exists_carries_iff hvalid hinstalled
  have hnot : ∀ bank e, l.isMatch (l.slots pc path) bank = false → ¬l.Carries pc path bank e := by
    intro bank e hfalse hcarried
    have hmatch := (hcarries bank).1 ⟨e, hcarried⟩
    rw [hfalse] at hmatch
    cases hmatch
  constructor
  · intro hnone
    have hall := findMatches_fst_eq_none_iff.1 hnone
    refine ⟨?_, fun bank e => hnot bank e (hall bank)⟩
    refine Option.eq_none_iff_forall_ne_some.2 fun alt halt => ?_
    obtain ⟨hit, hhit, -⟩ := l.descend_findMatches _ alt halt
    cases hnone.symm.trans hhit
  · intro hit hhit
    simp only [hcarries]
    exact findMatches_fst_eq_some_iff.1 hhit
  · intro hit alt hhit halt
    simp only [hcarries]
    exact (findMatches_snd_eq_some_iff hhit).1 halt
  · intro hit hhit halt bank e hlt
    refine hnot bank e (Bool.eq_false_of_not_eq_true fun hmatch => ?_)
    exact hlt.ne (eq_of_isMatch_of_snd_eq_none hhit halt hmatch)

end Regular

/-! ## Ladders that agree on a branch -/

namespace Agree

variable {pc : UInt64} {path path' : PathHistory}
  (h : l.Agree k pc path path' (l.findMatches (l.slots pc path)).2)
  (hl : l.Regular c) (hk : k.Regular c) (hvalid : c.validate = .ok ())
  (hlInstalled : l.Entrywise TaggedEntry.Installed)
  (hkInstalled : k.Entrywise TaggedEntry.Installed)

include h hl hk hvalid hlInstalled hkInstalled

theorem findMatches_eq :
    k.findMatches (k.slots pc path') = l.findMatches (l.slots pc path) := by
  rw [h.slots_eq]
  refine findMatches_congr_of_le fun bank hbank => ?_
  rw [Bool.eq_iff_iff, ← hl.exists_carries_iff hvalid hlInstalled, ← h.slots_eq,
    ← hk.exists_carries_iff hvalid hkInstalled]
  exact exists_congr (h.entries bank hbank)

/-- A table from the alternate on that answers has the same entry in both. -/
theorem exists_entry {bank : Nat} (hmatch : l.isMatch (l.slots pc path) bank = true)
    (hbank : ∀ alt, (l.findMatches (l.slots pc path)).2 = some alt → alt ≤ bank) :
    ∃ e, l.entry? (l.slots pc path) bank = some e ∧
      k.entry? (k.slots pc path') bank = some e := by
  obtain ⟨e, hcarries⟩ := (hl.exists_carries_iff hvalid hlInstalled).2 hmatch
  exact ⟨e, ((hl.carries_iff hvalid hlInstalled).1 hcarries).1,
    ((hk.carries_iff hvalid hkInstalled).1 ((h.entries bank hbank e).2 hcarries)).1⟩

theorem exists_longest {hit : Nat} (hhit : (l.findMatches (l.slots pc path)).1 = some hit) :
    ∃ e, l.entry? (l.slots pc path) hit = some e ∧ k.entry? (k.slots pc path') hit = some e := by
  refine h.exists_entry hl hk hvalid hlInstalled hkInstalled
    (findMatches_fst_eq_some_iff.1 hhit).1 fun alt halt => ?_
  exact ((findMatches_snd_eq_some_iff hhit).1 halt).1.2.le

theorem exists_alternate {alt : Nat} (halt : (l.findMatches (l.slots pc path)).2 = some alt) :
    ∃ e, l.entry? (l.slots pc path) alt = some e ∧ k.entry? (k.slots pc path') alt = some e := by
  obtain ⟨hit, hhit, -⟩ := l.descend_findMatches _ alt halt
  refine h.exists_entry hl hk hvalid hlInstalled hkInstalled
    ((findMatches_snd_eq_some_iff hhit).1 halt).1.1 fun alt' halt' => ?_
  exact (Option.some.inj (halt'.symm.trans halt)).le

omit h in
theorem of_entries {alt? : Option Nat} (hslots : k.slots pc path' = l.slots pc path)
    (hentries : ∀ bank < c.tables.length,
      k.entry? (l.slots pc path) bank = l.entry? (l.slots pc path) bank) :
    l.Agree k pc path path' alt? := by
  refine ⟨hslots, fun bank _ e => ?_⟩
  rw [hk.carries_iff hvalid hkInstalled, hl.carries_iff hvalid hlInstalled, hslots,
    isMatch_eq_true_iff, isMatch_eq_true_iff]
  rcases Nat.lt_or_ge bank c.tables.length with hlt | hge
  · rw [hentries bank hlt]
  · refine iff_of_false (fun hsome => ?_) fun hsome => ?_
    · exact Nat.not_lt.2 hge (hk.size_eq ▸ lt_size_of_entry hsome.1)
    · exact Nat.not_lt.2 hge (hl.size_eq ▸ lt_size_of_entry hsome.1)

end Agree

end Ladder

/-! ## TAGE -/

namespace Tage

/-- The counter of a provider of a branch. -/
def Answers (t : Tage) (pc : UInt64) (path : PathHistory) : Provider → Counter → Prop
  | .base, k => t.base.counters[t.base.index pc]? = some k
  | .tagged bank, k => ∃ e, t.ladder.Carries pc path bank e ∧ e.confidence = k

/-- What a prediction notes, where it comes from, and with what confidence. -/
structure Selected (t : Tage) (pc : UInt64) (path : PathHistory) (conditional : Bool)
    (p : Prediction) : Prop where
  finds : t.ladder.Finds pc path p.hit? p.alt?
  /-- The longest match provides, unless its entry is weak and its use-alt-on-new counter is not
  negative; then what stands behind it does. -/
  longest : ∀ hit, p.hit? = some hit → ∃ e k, t.ladder.Carries pc path hit e ∧
    t.ladder.useAlt[t.ladder.useAltIndex hit conditional]? = some k ∧
    p.pseudoNew = e.confidence.isWeak ∧ p.longestOutcome = e.confidence.predict ∧
    (p.provider, p.source) =
      if e.confidence.isWeak = true ∧ 0 ≤ k.value then (p.alt?.elim .base .tagged, .altMatch)
      else (.tagged hit, .longestMatch)
  /-- Without a match the base table provides. -/
  fallback : p.hit? = none → (p.provider, p.source) = (.base, .fallback) ∧
    p.pseudoNew = false ∧ p.longestOutcome = p.outcome
  /-- Direction and confidence are those of the provider's counter. -/
  provided : ∃ k, t.Answers pc path p.provider k ∧ p.outcome = k.predict ∧
    p.confidence = .ofCounter k
  /-- The alternate direction is that of the counter that stands behind the longest match. -/
  alternate : ∃ k, t.Answers pc path (p.alt?.elim .base .tagged) k ∧ p.altOutcome = k.predict

theorem altCounter_none (t : Tage) (slots : Array Slot) (baseIndex : Nat) :
    t.altCounter slots none baseIndex = (.base, t.base.counter baseIndex) :=
  rfl

theorem altCounter_some {t : Tage} {slots : Array Slot} {alt : Nat} {e : TaggedEntry SignOnly}
    (he : t.ladder.entry? slots alt = some e) (baseIndex : Nat) :
    t.altCounter slots (some alt) baseIndex = (.tagged alt, e.confidence) := by
  simp only [altCounter, he]

theorem predict_eq_of_none {t : Tage} {pc : UInt64} {path : PathHistory} (conditional : Bool)
    (hnone : t.ladder.findMatches (t.ladder.slots pc path) = (none, none)) :
    let k := t.base.counter (t.base.index pc)
    t.predict pc path conditional =
      { slots := t.ladder.slots pc path, baseIndex := t.base.index pc, conditional
        outcome := k.predict, longestOutcome := k.predict, altOutcome := k.predict
        confidence := .ofCounter k } := by
  simp only [predict, hnone, altCounter_none]

theorem predict_eq_of_some {t : Tage} {pc : UInt64} {path : PathHistory} (conditional : Bool)
    {hit : Nat} {alt? : Option Nat} {e : TaggedEntry SignOnly}
    (hsome : t.ladder.findMatches (t.ladder.slots pc path) = (some hit, alt?))
    (he : t.ladder.entry? (t.ladder.slots pc path) hit = some e) :
    let slots := t.ladder.slots pc path
    let alternate := t.altCounter slots alt? (t.base.index pc)
    let defers := e.isPseudoNew && t.ladder.prefersAlt hit conditional
    let provided := if defers then alternate else (.tagged hit, e.confidence)
    t.predict pc path conditional =
      { slots, baseIndex := t.base.index pc, hit? := some hit, alt?, conditional
        provider := provided.1
        source := if defers then .altMatch else .longestMatch
        outcome := provided.2.predict
        longestOutcome := e.confidence.predict
        altOutcome := alternate.2.predict
        pseudoNew := e.isPseudoNew
        confidence := .ofCounter provided.2 } := by
  simp only [predict, hsome, he]
  split
  · rfl
  · rfl

section Predict

variable {base : Bimodal.Config} {c : Ladder.Config} {t : Tage} (ht : t.Regular base c)
  (hbase : base.validate = .ok ()) (hvalid : c.validate = .ok ()) (pc : UInt64)
  (path : PathHistory)

include ht hbase

theorem answers_base : t.Answers pc path .base (t.base.counter (t.base.index pc)) := by
  have hlt : t.base.index pc < t.base.counters.size := by
    obtain ⟨hlogSize, -⟩ := base.widths_of_validate hbase
    rw [ht.base.size_eq, Bimodal.index, ht.base.config_eq]
    exact toNat_and_lowMask_lt _ (by omega)
  simp only [Answers, Bimodal.counter, Nat.mod_eq_of_lt hlt]
  exact Array.getElem?_eq_getElem hlt

include hvalid

/-- What stands behind the longest match is the alternate, or the base table. -/
theorem answers_altCounter {alt? : Option Nat}
    (halt : (t.ladder.findMatches (t.ladder.slots pc path)).2 = alt?) :
    let alternate := t.altCounter (t.ladder.slots pc path) alt? (t.base.index pc)
    alternate.1 = alt?.elim .base .tagged ∧ t.Answers pc path alternate.1 alternate.2 := by
  cases alt? with
  | none => exact ⟨rfl, answers_base ht hbase pc path⟩
  | some alt =>
      have hinstalled := t.ladder.installed_signOnly
      obtain ⟨hit, hhit, -⟩ := t.ladder.descend_findMatches _ alt halt
      obtain ⟨⟨e, hcarries⟩, -⟩ :=
        ((ht.ladder.finds hvalid hinstalled pc path).alternate hit alt hhit halt).1
      rw [altCounter_some ((ht.ladder.carries_iff hvalid hinstalled).1 hcarries).1]
      exact ⟨rfl, e, hcarries, rfl⟩

theorem selected_predict (conditional : Bool) :
    t.Selected pc path conditional (t.predict pc path conditional) := by
  have hinstalled := t.ladder.installed_signOnly
  have hfinds := ht.ladder.finds hvalid hinstalled pc path
  obtain ⟨hbehind, hanswers⟩ := answers_altCounter ht hbase hvalid pc path rfl
  rcases t.ladder.findMatches_cases (t.ladder.slots pc path) with
    ⟨hnone, -⟩ | ⟨hit, alt?, hsome, hmatch, -⟩
  · rw [hnone] at hfinds
    rw [predict_eq_of_none conditional hnone]
    have hanswer := answers_base ht hbase pc path
    constructor
    case finds => exact hfinds
    case longest => exact fun hit hhit => by cases hhit
    case fallback => exact fun _ => ⟨rfl, rfl, rfl⟩
    case provided => exact ⟨_, hanswer, rfl, rfl⟩
    case alternate => exact ⟨_, hanswer, rfl⟩
  · obtain ⟨e, hcarries⟩ := (ht.ladder.exists_carries_iff hvalid hinstalled).2 hmatch
    obtain ⟨he, -⟩ := (ht.ladder.carries_iff hvalid hinstalled).1 hcarries
    obtain ⟨k, hk, hprefers⟩ :=
      ht.ladder.exists_useAlt hvalid (lt_size_of_entry he) conditional
    have hdefers : (e.isPseudoNew && t.ladder.prefersAlt hit conditional) = true ↔
        e.confidence.isWeak = true ∧ 0 ≤ k.value := by
      rw [hprefers, Bool.and_eq_true, decide_eq_true_iff]
      rfl
    rw [hsome] at hfinds hbehind hanswers
    rw [predict_eq_of_some conditional hsome he]
    constructor
    case finds => exact hfinds
    case longest =>
      intro hit' hhit'
      obtain rfl := Option.some.inj hhit'
      refine ⟨e, k, hcarries, hk, rfl, rfl, ?_⟩
      simp only [hdefers]
      split
      · exact congrArg (·, ProviderSource.altMatch) hbehind
      · rfl
    case fallback => exact fun hhit => by cases hhit
    case provided =>
      simp only
      split
      · exact ⟨_, hanswers, rfl, rfl⟩
      · exact ⟨_, ⟨e, hcarries, rfl⟩, rfl, rfl⟩
    case alternate => exact ⟨_, hbehind ▸ hanswers, rfl⟩

end Predict

/-- What stands behind the longest match is the same if the alternate is, or the base counter. -/
theorem altCounter_congr {t u : Tage} {slots slots' : Array Slot} {alt? : Option Nat}
    {baseIndex : Nat}
    (hentry : ∀ alt, alt? = some alt → ∃ e, t.ladder.entry? slots alt = some e ∧
      u.ladder.entry? slots' alt = some e)
    (hcounter : alt? = none → u.base.counter baseIndex = t.base.counter baseIndex) :
    u.altCounter slots' alt? baseIndex = t.altCounter slots alt? baseIndex := by
  cases alt? with
  | none => rw [altCounter_none, altCounter_none, hcounter rfl]
  | some alt =>
      obtain ⟨e, ht, hu⟩ := hentry alt rfl
      rw [altCounter_some hu, altCounter_some ht]

/-- What the record `p` of a branch depends on is the same in two predictors: the slots, the entries
from the alternate on, the base counter if there is no alternate, and the use-alt-on-new counter if
the longest match is weak. -/
structure Agree (t u : Tage) (pc : UInt64) (path path' : PathHistory) (conditional : Bool)
    (p : Prediction) : Prop where
  ladder : t.ladder.Agree u.ladder pc path path' p.alt?
  base : p.alt? = none → u.base.counters[p.baseIndex]? = t.base.counters[p.baseIndex]?
  useAlt : ∀ hit, p.hit? = some hit → p.pseudoNew = true →
    u.ladder.useAlt[u.ladder.useAltIndex hit conditional]? =
      t.ladder.useAlt[t.ladder.useAltIndex hit conditional]?

/-- Predictors that agree on what a record depends on make the same record. -/
theorem predict_congr {base : Bimodal.Config} {c : Ladder.Config} {t u : Tage}
    (ht : t.Regular base c) (hu : u.Regular base c) (hbase : base.validate = .ok ())
    (hvalid : c.validate = .ok ()) {pc : UInt64} {path path' : PathHistory} {conditional : Bool}
    (hsame : t.Agree u pc path path' conditional (t.predict pc path conditional)) :
    u.predict pc path' conditional = t.predict pc path conditional := by
  obtain ⟨hagree, hcounter, huseAlt⟩ := hsame
  have htInstalled := t.ladder.installed_signOnly
  have huInstalled := u.ladder.installed_signOnly
  obtain ⟨-, hhit, halt, hindex⟩ := t.predict_selection pc path conditional
  rw [halt] at hagree hcounter
  rw [hindex] at hcounter
  have hmatches := hagree.findMatches_eq ht.ladder hu.ladder hvalid htInstalled huInstalled
  have hplace : u.base.index pc = t.base.index pc := by
    rw [Bimodal.index, hu.base.config_eq, Bimodal.index, ht.base.config_eq]
  have hbehind := altCounter_congr (fun alt => hagree.exists_alternate ht.ladder hu.ladder hvalid
    htInstalled huInstalled) fun hnone => by
      have hleft := answers_base hu hbase pc path'
      have hright := answers_base ht hbase pc path
      simp only [Answers, hplace] at hleft hright
      exact Option.some.inj (hleft.symm.trans ((hcounter hnone).trans hright))
  rw [hagree.slots_eq] at hbehind
  rcases t.ladder.findMatches_cases (t.ladder.slots pc path) with
    ⟨hnone, -⟩ | ⟨hit, alt?, hsome, -⟩
  · rw [hnone, altCounter_none, altCounter_none] at hbehind
    have hcounters := (Prod.mk.inj hbehind).2
    rw [predict_eq_of_none conditional hnone,
      predict_eq_of_none conditional (hmatches.trans hnone)]
    simp only [hplace, hagree.slots_eq, hcounters]
  · obtain ⟨e, he, he'⟩ := hagree.exists_longest ht.ladder hu.ladder hvalid htInstalled
      huInstalled (congrArg Prod.fst hsome)
    have hdefers : (e.isPseudoNew && u.ladder.prefersAlt hit conditional) =
        (e.isPseudoNew && t.ladder.prefersAlt hit conditional) := by
      obtain ⟨-, hnew, -, -⟩ := t.predict_of_some conditional hsome he
      cases hfresh : e.isPseudoNew with
      | false => rfl
      | true =>
          rw [prefersAlt, huseAlt hit (by rw [hhit, hsome]) (hnew.trans hfresh), prefersAlt]
    rw [hsome] at hbehind
    rw [predict_eq_of_some conditional hsome he,
      predict_eq_of_some conditional (hmatches.trans hsome) he']
    simp only [hdefers, hplace, hagree.slots_eq, hbehind]

end Tage

/-! ## ITTAGE -/

namespace Ittage

/-- What a lookup notes, and where its target comes from. -/
structure Selected (p : Ittage) (pc : UInt64) (isConditional : Bool) (l : Lookup) : Prop where
  finds : p.ladder.Finds pc p.history.path l.hit? l.alt?
  /-- The longest match provides its target, unless its entry is fresh, there is an alternate, and
  its use-alt-on-new counter is not negative; then the alternate provides. -/
  longest : ∀ hit, l.hit? = some hit → ∃ e k target, p.ladder.Carries pc p.history.path hit e ∧
    p.ladder.useAlt[p.ladder.useAltIndex hit isConditional]? = some k ∧
    e.payload.address? = some target ∧ l.longestTarget? = some target ∧
    l.pseudoNew = decide (e.confidence.value = 0) ∧
    (l.target?, l.source) =
      if e.confidence.value = 0 ∧ l.alt?.isSome = true ∧ 0 ≤ k.value then
        (l.altTarget?, .altMatch)
      else (some target, .longestMatch)
  /-- The alternate target is that of the alternate. -/
  alternate : ∀ alt, l.alt? = some alt → ∃ e target,
    p.ladder.Carries pc p.history.path alt e ∧ e.payload.address? = some target ∧
    l.altTarget? = some target
  /-- Without an alternate there is no alternate target, and none is used. -/
  noAlternate : l.alt? = none → l.altTarget? = none ∧ l.source ≠ .altMatch
  /-- Without a match there is no target at all. -/
  fallback : l.hit? = none → l.target? = none ∧ l.longestTarget? = none ∧ l.altTarget? = none ∧
    l.pseudoNew = false ∧ l.source = .fallback

/-- What the lookup `l` of a branch depends on is the same in two predictors: the slots, the entries
from the alternate on, and the use-alt-on-new counter if the longest match is fresh and there is an
alternate. -/
structure Agree (p q : Ittage) (pc : UInt64) (isConditional : Bool) (l : Lookup) : Prop where
  ladder : p.ladder.Agree q.ladder pc p.history.path q.history.path l.alt?
  useAlt : ∀ hit, l.hit? = some hit → l.pseudoNew = true → l.alt?.isSome = true →
    q.ladder.useAlt[q.ladder.useAltIndex hit isConditional]? =
      p.ladder.useAlt[p.ladder.useAltIndex hit isConditional]?

section Find

variable {c : Ladder.Config} {p : Ittage} (hp : p.ladder.Regular c)
  (hinstalled : p.ladder.Entrywise TaggedEntry.Installed) (hvalid : c.validate = .ok ())

theorem exists_target {l : Ladder Target} (hl : l.Entrywise TaggedEntry.Installed) {pc : UInt64}
    {path : PathHistory} {bank : Nat} {e : TaggedEntry Target} (h : l.Carries pc path bank e) :
    ∃ target, e.payload.address? = some target := by
  obtain ⟨t, ht, he, htag⟩ := h
  refine Option.isSome_iff_exists.1
    (hl t (Array.mem_of_getElem? ht) e (Array.mem_of_getElem? he) ?_)
  rw [htag]
  rfl

include hp hinstalled hvalid

theorem selected_find (pc : UInt64) (isConditional : Bool) :
    p.Selected pc isConditional (p.find pc isConditional) := by
  have hfinds := hp.finds hvalid hinstalled pc p.history.path
  rcases p.ladder.findMatches_cases (p.ladder.slots pc p.history.path) with
    ⟨hnone, -⟩ | ⟨hit, alt?, hsome, hmatch, halternate⟩
  · rw [hnone] at hfinds
    rw [find_of_none isConditional hnone]
    constructor
    case finds => exact hfinds
    case longest => exact fun hit hhit => by cases hhit
    case alternate => exact fun alt halt => by cases halt
    case noAlternate => exact fun _ => ⟨rfl, fun hsource => by cases hsource⟩
    case fallback => exact fun _ => ⟨rfl, rfl, rfl, rfl, rfl⟩
  · obtain ⟨e, hcarries⟩ := (hp.exists_carries_iff hvalid hinstalled).2 hmatch
    obtain ⟨he, -⟩ := (hp.carries_iff hvalid hinstalled).1 hcarries
    obtain ⟨k, hk, hprefers⟩ := hp.exists_useAlt hvalid (lt_size_of_entry he) isConditional
    obtain ⟨target, htarget⟩ := exists_target hinstalled hcarries
    have hdefers : (e.isPseudoNew && alt?.isSome && p.ladder.prefersAlt hit isConditional) = true ↔
        e.confidence.value = 0 ∧ alt?.isSome = true ∧ 0 ≤ k.value := by
      rw [hprefers, Bool.and_eq_true, Bool.and_eq_true, decide_eq_true_iff, and_assoc]
      exact and_congr_left fun _ => decide_eq_true_iff
    rw [hsome] at hfinds
    rw [find_of_some isConditional hsome he]
    constructor
    case finds => exact hfinds
    case longest =>
      intro hit' hhit'
      obtain rfl := Option.some.inj hhit'
      refine ⟨e, k, target, hcarries, hk, htarget, htarget, rfl, ?_⟩
      simp only [hdefers, htarget]
      split
      · rfl
      · rfl
    case alternate =>
      intro alt halt
      obtain rfl : alt? = some alt := halt
      obtain ⟨e', hcarries'⟩ :=
        (hp.exists_carries_iff hvalid hinstalled).2 (halternate alt rfl).1
      obtain ⟨target', htarget'⟩ := exists_target hinstalled hcarries'
      refine ⟨e', target', hcarries', htarget', ?_⟩
      simp only [Option.bind_some, targetOf, ((hp.carries_iff hvalid hinstalled).1 hcarries').1,
        htarget']
    case noAlternate =>
      intro halt
      obtain rfl : alt? = none := halt
      simp
    case fallback => exact fun hhit => by cases hhit

theorem find_congr {q : Ittage} (hq : q.ladder.Regular c)
    (hqInstalled : q.ladder.Entrywise TaggedEntry.Installed) {pc : UInt64} {isConditional : Bool}
    (hsame : p.Agree q pc isConditional (p.find pc isConditional)) :
    q.find pc isConditional = p.find pc isConditional := by
  obtain ⟨hagree, huseAlt⟩ := hsame
  obtain ⟨-, -, halt⟩ := p.find_selection pc isConditional
  rw [halt] at hagree
  have hmatches := hagree.findMatches_eq hp hq hvalid hinstalled hqInstalled
  rcases p.ladder.findMatches_cases (p.ladder.slots pc p.history.path) with
    ⟨hnone, -⟩ | ⟨hit, alt?, hsome, -⟩
  · rw [find_of_none isConditional hnone, find_of_none isConditional (hmatches.trans hnone),
      hagree.slots_eq]
  · obtain ⟨e, he, he'⟩ := hagree.exists_longest hp hq hvalid hinstalled hqInstalled
      (congrArg Prod.fst hsome)
    have htarget : alt?.bind (q.targetOf (q.ladder.slots pc q.history.path)) =
        alt?.bind (p.targetOf (p.ladder.slots pc p.history.path)) := by
      cases halt' : alt? with
      | none => rfl
      | some alt =>
          obtain ⟨e', hleft, hright⟩ := hagree.exists_alternate hp hq hvalid hinstalled hqInstalled
            (by rw [hsome, halt'])
          simp only [Option.bind_some, targetOf, hleft, hright]
    have hfound := find_of_some isConditional hsome he
    have hdefers : (e.isPseudoNew && alt?.isSome && q.ladder.prefersAlt hit isConditional) =
        (e.isPseudoNew && alt?.isSome && p.ladder.prefersAlt hit isConditional) := by
      cases hfresh : e.isPseudoNew && alt?.isSome with
      | false => rfl
      | true =>
          obtain ⟨hnew, hbehind⟩ := Bool.and_eq_true_iff.1 hfresh
          rw [hfound] at huseAlt
          rw [prefersAlt, huseAlt hit rfl hnew hbehind, prefersAlt]
    rw [hfound, find_of_some isConditional (hmatches.trans hsome) he']
    rw [hagree.slots_eq] at htarget
    simp only [hdefers, hagree.slots_eq, htarget]

end Find

/-- What is known of the ladder in every state that calls lead to. -/
theorem regular_of_reachable {c : Config} {built p : Ittage} (hbuild : c.build = .ok built)
    (h : Reachable built p) : p.ladder.Regular c.ladder :=
  (((kept_descends built).reachable ⟨⟨rfl, rfl⟩, rfl⟩ h).regular hbuild).ladder

end Ittage

/-- Which table provides a prediction, and what the prediction depends on.  Every field of the
record of a branch is as `Tage.Selected` says, for each regular predictor of valid configurations,
and two of them that agree on the slots, the entries from the alternate on and the counters that are
read make the same record.  The same holds of the lookups of ITTAGE (`Ittage.Selected`), in every
state that calls lead to. -/
theorem provider_selection :
    (∀ {base : Bimodal.Config} {c : Ladder.Config}, base.validate = .ok () → c.validate = .ok () →
      ∀ {t : Tage}, t.Regular base c → ∀ (pc : UInt64) (path : PathHistory) (conditional : Bool),
      t.Selected pc path conditional (t.predict pc path conditional) ∧
        ∀ {u : Tage} (path' : PathHistory), u.Regular base c →
          t.Agree u pc path path' conditional (t.predict pc path conditional) →
          u.predict pc path' conditional = t.predict pc path conditional) ∧
    ∀ {c : Ittage.Config} {built : Ittage}, c.build = .ok built →
      ∀ {p : Ittage}, Reachable built p → ∀ (pc : UInt64) (isConditional : Bool),
      p.Selected pc isConditional (p.find pc isConditional) ∧
        ∀ {q : Ittage}, Reachable built q →
          p.Agree q pc isConditional (p.find pc isConditional) →
          q.find pc isConditional = p.find pc isConditional := by
  constructor
  · intro base c hbase hvalid t ht pc path conditional
    exact ⟨Tage.selected_predict ht hbase hvalid pc path conditional,
      fun path' hu hagree => Tage.predict_congr ht hu hbase hvalid hagree⟩
  · intro c built hbuild p hp pc isConditional
    have hvalid : c.ladder.validate = .ok () := c.ladder_of_validate (Ittage.build_eq_ok hbuild).1
    have hregular := Ittage.regular_of_reachable hbuild hp
    have hinstalled := Ittage.installed_of_reachable hbuild hp
    refine ⟨Ittage.selected_find hregular hinstalled hvalid pc isConditional, fun hq hagree => ?_⟩
    exact Ittage.find_congr hregular hinstalled hvalid (Ittage.regular_of_reachable hbuild hq)
      (Ittage.installed_of_reachable hbuild hq) hagree

/-- The record of a branch at another place than that of `Tage.takenOnce`, with no match. -/
def Tage.otherBranch : Prediction :=
  { slots := #[⟨0, 1⟩, ⟨1, 1⟩, ⟨0, 1⟩], baseIndex := 1 }

/-- A jump at another place than that of `deferringRun`. -/
def otherJump : Visit where
  h := 0
  predicted := true
  pc := 5
  isConditional := false
  first := ⟨5, .indirectJump, .taken, 96⟩
  revisions := []
  resolved := ⟨5, .indirectJump, .taken, 96⟩

theorem Tage.agree_commit_otherBranch :
    takenOnce.Agree (takenOnce.commit otherBranch .taken .notTaken false) 4 (.empty 3) (.empty 3)
      true (takenOnce.predict 4 (.empty 3) true) := by
  have hreachable : Reachable smallBase smallLadder takenOnce := .commit .blank _ _ _ _
  have hbefore := hreachable.regular.ladder
  have hafter := (hreachable.commit otherBranch .taken .notTaken false).regular.ladder
  have hlongest : (takenOnce.predict 4 (.empty 3) true).hit? = some 0 := by decide +kernel
  constructor
  case ladder =>
    exact .of_entries hbefore hafter rfl (installed_signOnly _) (installed_signOnly _)
      (by decide +kernel) (by decide +kernel)
  case base => decide +kernel
  case useAlt =>
    intro hit hhit _
    obtain rfl := Option.some.inj (hlongest.symm.trans hhit)
    decide +kernel

theorem Ittage.agree_run_otherJump :
    let s := (Session.start deferring).run deferringRun
    s.predictor.Agree (s.run otherJump.calls).predictor 4 false (s.predictor.find 4 false) := by
  intro s
  have hbuild : deferringConfig.build = .ok deferring := rfl
  have hreachable : Reachable deferring s.predictor :=
    Session.reachable_run (s := Session.start deferring) .origin deferringRun
  have hrun := Session.reachable_run hreachable otherJump.calls
  have hlongest : (s.predictor.find 4 false).hit? = some 1 := by decide +kernel
  constructor
  case ladder =>
    exact .of_entries (regular_of_reachable hbuild hreachable) (regular_of_reachable hbuild hrun)
      rfl (installed_of_reachable hbuild hreachable) (installed_of_reachable hbuild hrun)
      (by decide +kernel) (by decide +kernel)
  case useAlt =>
    intro hit hhit _ _
    obtain rfl := Option.some.inj (hlongest.symm.trans hhit)
    decide +kernel

/-- Another branch, or another jump, is given an entry of its own; the record of the first stays as
it is, with a fresh longest match that defers to what stands behind it. -/
theorem others_do_not_select :
    let t := Tage.takenOnce
    let u := t.commit Tage.otherBranch .taken .notTaken false
    let s := (Session.start Ittage.deferring).run deferringRun
    let p := s.predictor
    let q := (s.run otherJump.calls).predictor
    (u.ladder.stats.allocations = 2 ∧ (t.predict 4 (.empty 3) true).provider = .base ∧
        t.Selected 4 (.empty 3) true (t.predict 4 (.empty 3) true) ∧
        u.predict 4 (.empty 3) true = t.predict 4 (.empty 3) true) ∧
      q.ladder.stats.allocations = 3 ∧ (p.find 4 false).target? = some 64 ∧
        p.Selected 4 false (p.find 4 false) ∧ q.find 4 false = p.find 4 false := by
  intro t u s p q
  obtain ⟨hdirections, htargets⟩ := provider_selection
  have ht : Tage.Reachable Tage.smallBase Tage.smallLadder t := .commit .blank _ _ _ _
  have hu : Tage.Reachable Tage.smallBase Tage.smallLadder u := ht.commit _ _ _ _
  obtain ⟨hselected, hsame⟩ := hdirections rfl rfl ht.regular 4 (.empty 3) true
  have hbuild : Ittage.deferringConfig.build = .ok Ittage.deferring := rfl
  have hp : Reachable Ittage.deferring p :=
    Session.reachable_run (s := Session.start Ittage.deferring) .origin deferringRun
  have hq : Reachable Ittage.deferring q := Session.reachable_run hp otherJump.calls
  obtain ⟨hselected', hsame'⟩ := htargets hbuild hp 4 false
  exact ⟨⟨by decide +kernel, by decide +kernel, hselected,
      hsame (.empty 3) hu.regular Tage.agree_commit_otherBranch⟩,
    by decide +kernel, by decide +kernel, hselected', hsame' hq Ittage.agree_run_otherJump⟩

end BranchPrediction
