import BranchPrediction.Proofs.Pipeline.Session
import Mathlib.Data.List.Nodup

/-!
# Scripts of a pipeline

A script fetches branches, revises or squashes the youngest one in flight, and commits the oldest
one, in any interleaving (`Disciplined`).  `erase` drops every branch that is squashed in the end,
and gives each other branch a single update, at the place of the first and with the arguments of
the last.

A branch that survives holds down those below it: they survive too, and are not revised any more
(`Disciplined.settled`).
-/

namespace BranchPrediction

/-- A script that respects the order of the branches in flight, which are given youngest first
with their addresses: fetched branches are new, revisions and squashes take the youngest, commits
the oldest, and calls on a branch use its address. -/
def Disciplined : List (Nat × UInt64) → List Event → Prop
  | _, [] => True
  | live, .fetch h _ pc _ b :: rest =>
    h ∉ live.map Prod.fst ∧ b.pc = pc ∧ Disciplined ((h, pc) :: live) rest
  | live, .revise h _ b :: rest => live.head? = some (h, b.pc) ∧ Disciplined live rest
  | live, .commit h b :: rest => live.getLast? = some (h, b.pc) ∧ Disciplined live.dropLast rest
  | live, .squash h :: rest => live.head?.map Prod.fst = some h ∧ Disciplined live.tail rest
  | live, .reset :: rest => live = [] ∧ Disciplined live rest

/-- The branch of a handle in flight is squashed in the end. -/
def isSquashed (h : Nat) : List Event → Bool
  | [] => false
  | .squash k :: rest => k == h || isSquashed h rest
  | .commit k _ :: rest => k != h && isSquashed h rest
  | _ :: rest => isSquashed h rest

/-- The arguments of the last revision of a branch in flight, or those that it has. -/
def lastBranch (h : Nat) (b : Branch) : List Event → Branch
  | [] => b
  | .revise k _ b' :: rest => lastBranch h (if k = h then b' else b) rest
  | .commit k _ :: rest => if k = h then b else lastBranch h b rest
  | _ :: rest => lastBranch h b rest

/-- The script without the branches that are squashed, and with one update of each other one. -/
def erase : List Event → List Event
  | [] => []
  | .fetch h predicted pc isConditional b :: rest =>
    if isSquashed h rest then erase rest
    else .fetch h predicted pc isConditional (lastBranch h b rest) :: erase rest
  | .commit h b :: rest => .commit h b :: erase rest
  | .reset :: rest => .reset :: erase rest
  | .revise _ _ _ :: rest => erase rest
  | .squash _ :: rest => erase rest

/-! ## What discipline says of the branches in flight -/

section Disciplined

variable {live : List (Nat × UInt64)} {h : Nat} {b : Branch} {rest : List Event}

theorem Disciplined.of_revise {repairs : Bool}
    (hdisciplined : Disciplined live (.revise h repairs b :: rest)) :
    ∃ older, live = (h, b.pc) :: older ∧ Disciplined live rest := by
  obtain ⟨hyoungest, hrest⟩ := hdisciplined
  obtain ⟨older, rfl⟩ := List.head?_eq_some_iff.1 hyoungest
  exact ⟨older, rfl, hrest⟩

theorem Disciplined.of_squash (hdisciplined : Disciplined live (.squash h :: rest)) :
    ∃ pc older, live = (h, pc) :: older ∧ Disciplined older rest := by
  obtain ⟨hyoungest, hrest⟩ := hdisciplined
  cases live with
  | nil => cases hyoungest
  | cons a older =>
      obtain rfl : a.1 = h := Option.some.inj hyoungest
      exact ⟨a.2, older, rfl, hrest⟩

theorem Disciplined.of_commit (hdisciplined : Disciplined live (.commit h b :: rest)) :
    ∃ younger, live = younger ++ [(h, b.pc)] ∧ Disciplined younger rest := by
  obtain ⟨holdest, hrest⟩ := hdisciplined
  obtain ⟨younger, rfl⟩ := List.getLast?_eq_some_iff.1 holdest
  rw [List.dropLast_concat] at hrest
  exact ⟨younger, rfl, hrest⟩

end Disciplined

/-! ## Repairs taken for updates -/

theorem isSquashed_asUpdate (h : Nat) (script : List Event) :
    isSquashed h (script.map Event.asUpdate) = isSquashed h script := by
  induction script with
  | nil => rfl
  | cons event rest ih =>
      cases event <;> simp only [List.map_cons, Event.asUpdate, isSquashed, ih]

theorem lastBranch_asUpdate (h : Nat) (b : Branch) (script : List Event) :
    lastBranch h b (script.map Event.asUpdate) = lastBranch h b script := by
  induction script generalizing b with
  | nil => rfl
  | cons event rest ih =>
      cases event <;> simp only [List.map_cons, Event.asUpdate, lastBranch, ih]

theorem erase_asUpdate (script : List Event) :
    erase (script.map Event.asUpdate) = erase script := by
  induction script with
  | nil => rfl
  | cons event rest ih =>
      cases event <;> simp only [List.map_cons, Event.asUpdate, erase, isSquashed_asUpdate,
        lastBranch_asUpdate, ih]

theorem disciplined_asUpdate {live : List (Nat × UInt64)} {script : List Event}
    (h : Disciplined live script) : Disciplined live (script.map Event.asUpdate) := by
  induction script generalizing live with
  | nil => exact h
  | cons event rest ih =>
      cases event with
      | fetch h predicted pc isConditional b => exact ⟨h.1, h.2.1, ih h.2.2⟩
      | revise h repairs b => exact ⟨h.1, ih h.2⟩
      | commit h b => exact ⟨h.1, ih h.2⟩
      | squash h => exact ⟨h.1, ih h.2⟩
      | reset => exact ⟨h.1, ih h.2⟩

/-! ## The fate of a branch in flight -/

/-- A branch is settled when it is not squashed and not revised any more. -/
def Settled (h : Nat) (script : List Event) : Prop :=
  isSquashed h script = false ∧ ∀ b, lastBranch h b script = b

theorem Settled.of_revise {h k : Nat} {repairs : Bool} {b : Branch} {rest : List Event}
    (hsettled : Settled h rest) (hne : k ≠ h) : Settled h (.revise k repairs b :: rest) := by
  refine ⟨hsettled.1, ?_⟩
  intro b'
  rw [lastBranch, if_neg hne]
  exact hsettled.2 b'

theorem settled_commit (h : Nat) (b : Branch) (rest : List Event) :
    Settled h (.commit h b :: rest) := by
  constructor
  · simp [isSquashed]
  · intro b'
    simp [lastBranch]

theorem Settled.of_commit {h k : Nat} {b : Branch} {rest : List Event}
    (hsettled : Settled h rest) (hne : k ≠ h) : Settled h (.commit k b :: rest) := by
  constructor
  · simp [isSquashed, hsettled.1]
  · intro b'
    rw [lastBranch, if_neg hne]
    exact hsettled.2 b'

theorem Settled.of_squash {h k : Nat} {rest : List Event}
    (hsettled : Settled h rest) (hne : k ≠ h) : Settled h (.squash k :: rest) := by
  constructor
  · simp [isSquashed, hsettled.1, hne]
  · exact hsettled.2

theorem head_ne_of_mem_below {above below older : List (Nat × UInt64)} {h k a : Nat × UInt64}
    (hnodup : ((above ++ h :: below).map Prod.fst).Nodup) (hk : k ∈ below)
    (hlive : above ++ h :: below = a :: older) : a.1 ≠ k.1 := by
  have hmem : k ∈ older := by
    cases above with
    | nil =>
        obtain ⟨-, rfl⟩ := List.cons.inj hlive
        exact hk
    | cons _ above =>
        obtain ⟨-, rfl⟩ := List.cons.inj hlive
        exact List.mem_append_right _ (List.mem_cons_of_mem _ hk)
  rw [hlive, List.map_cons, List.nodup_cons] at hnodup
  intro heq
  exact hnodup.1 (heq ▸ List.mem_map_of_mem hmem)

/-- The oldest branch is below any other one. -/
theorem below_eq_concat {above below younger : List (Nat × UInt64)} {h k a : Nat × UInt64}
    (hk : k ∈ below) (hlive : above ++ h :: below = younger ++ [a]) :
    ∃ between, below = between ++ [a] ∧ younger = above ++ h :: between := by
  rcases List.eq_nil_or_concat below with rfl | ⟨between, last, rfl⟩
  · cases hk
  · have hsplit : (above ++ h :: between) ++ [last] = younger ++ [a] := by
      simpa using hlive
    obtain ⟨hyounger, hlast⟩ := List.append_inj' hsplit rfl
    obtain rfl := List.singleton_inj.1 hlast
    exact ⟨between, List.concat_eq_append, hyounger.symm⟩

/-- A branch that is not squashed settles those below it. -/
theorem Disciplined.settled {above below : List (Nat × UInt64)} {h k : Nat × UInt64}
    {script : List Event} (hdisciplined : Disciplined (above ++ h :: below) script)
    (hnodup : ((above ++ h :: below).map Prod.fst).Nodup)
    (hkept : isSquashed h.1 script = false) (hk : k ∈ below) : Settled k.1 script := by
  induction script generalizing above below with
  | nil => exact ⟨rfl, fun _ => rfl⟩
  | cons event rest ih =>
      cases event with
      | fetch g predicted pc isConditional b =>
          obtain ⟨hfresh, -, hrest⟩ := hdisciplined
          have hrest' : Disciplined (((g, pc) :: above) ++ h :: below) rest := hrest
          exact ih hrest' (List.nodup_cons.2 ⟨hfresh, hnodup⟩) hkept hk
      | revise g repairs b =>
          obtain ⟨older, hlive, hrest⟩ := hdisciplined.of_revise
          exact (ih hrest hnodup hkept hk).of_revise (head_ne_of_mem_below hnodup hk hlive)
      | commit g b =>
          obtain ⟨younger, hlive, hrest⟩ := hdisciplined.of_commit
          obtain ⟨between, rfl, rfl⟩ := below_eq_concat hk hlive
          rw [hlive, List.map_append] at hnodup
          obtain ⟨hnodupYounger, -, hdisjoint⟩ := List.nodup_append.1 hnodup
          have hne : ∀ a ∈ above ++ h :: between, g ≠ a.1 := by
            intro a ha
            exact (hdisjoint a.1 (List.mem_map_of_mem ha) g (by simp)).symm
          -- the oldest branch commits: that is `k` itself, or a branch below it
          rcases List.mem_append.1 hk with hbetween | hlast
          · have hkeptRest : isSquashed h.1 rest = false := by
              simpa [isSquashed, hne h (by simp)] using hkept
            exact (ih hrest hnodupYounger hkeptRest hbetween).of_commit
              (hne k (List.mem_append_right _ (List.mem_cons_of_mem _ hbetween)))
          · obtain rfl := List.mem_singleton.1 hlast
            exact settled_commit g b rest
      | squash g =>
          obtain ⟨pc, older, hlive, hrest⟩ := hdisciplined.of_squash
          have hne := head_ne_of_mem_below hnodup hk hlive
          simp only [isSquashed, Bool.or_eq_false_iff] at hkept
          -- the youngest branch is squashed; since `h` is kept, it is one above `h`
          cases above with
          | nil =>
              obtain ⟨rfl, -⟩ := List.cons.inj hlive
              simp at hkept
          | cons a above =>
              obtain ⟨-, rfl⟩ := List.cons.inj hlive
              exact (ih hrest (List.nodup_cons.1 hnodup).2 hkept.2 hk).of_squash hne
      | reset =>
          obtain ⟨hempty, -⟩ := hdisciplined
          simp at hempty

theorem Disciplined.pc_lastBranch {live : List (Nat × UInt64)} {h : Nat} {b : Branch}
    {script : List Event} (hdisciplined : Disciplined live script)
    (hnodup : (live.map Prod.fst).Nodup) (hlive : (h, b.pc) ∈ live)
    (hkept : isSquashed h script = false) : (lastBranch h b script).pc = b.pc := by
  induction script generalizing live b with
  | nil => rfl
  | cons event rest ih =>
      cases event with
      | fetch g predicted pc isConditional b' =>
          obtain ⟨hfresh, -, hrest⟩ := hdisciplined
          exact ih hrest (List.nodup_cons.2 ⟨hfresh, hnodup⟩) (List.mem_cons_of_mem _ hlive) hkept
      | revise g repairs b' =>
          obtain ⟨older, rfl, hrest⟩ := hdisciplined.of_revise
          rw [lastBranch]
          by_cases hgh : g = h
          · subst hgh
            have hpc : b'.pc = b.pc :=
              congrArg Prod.snd (List.inj_on_of_nodup_map hnodup List.mem_cons_self hlive rfl)
            rw [if_pos rfl, ih hrest hnodup (hpc ▸ hlive) hkept, hpc]
          · rw [if_neg hgh]
            exact ih hrest hnodup hlive hkept
      | commit g b' =>
          obtain ⟨younger, rfl, hrest⟩ := hdisciplined.of_commit
          rw [lastBranch]
          by_cases hgh : g = h
          · rw [if_pos hgh]
          · rw [if_neg hgh]
            rw [List.map_append] at hnodup
            have hmem : (h, b.pc) ∈ younger := by
              rcases List.mem_append.1 hlive with hmem | hmem
              · exact hmem
              · exact absurd (congrArg Prod.fst (List.mem_singleton.1 hmem)).symm hgh
            have hkeptRest : isSquashed h rest = false := by
              simpa [isSquashed, hgh] using hkept
            exact ih hrest (List.nodup_append.1 hnodup).1 hmem hkeptRest
      | squash g =>
          obtain ⟨pc, older, rfl, hrest⟩ := hdisciplined.of_squash
          simp only [isSquashed, Bool.or_eq_false_iff, beq_eq_false_iff_ne] at hkept
          have hmem : (h, b.pc) ∈ older := by
            rcases List.mem_cons.1 hlive with heq | hmem
            · exact absurd (congrArg Prod.fst heq).symm hkept.1
            · exact hmem
          exact ih hrest (List.nodup_cons.1 hnodup).2 hmem hkept.2
      | reset =>
          obtain ⟨rfl, -⟩ := hdisciplined
          cases hlive

end BranchPrediction
