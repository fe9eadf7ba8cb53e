/-!
# The moments of a run

A run makes one step after another.  Its moments are the steps together with the states in which
they are made, in order; what a run did is said of them.

A property of states need not be an invariant.  If some steps may break it and others mend it, it
holds at the end of a run in which each step that breaks it is followed by one that mends it
(`holds_of_mended`).
-/

namespace BranchPrediction

variable {State Step : Type}

/-- The steps of a run, each with the state in which it is made. -/
def moments (next : State → Step → State) : State → List Step → List (State × Step)
  | _, [] => []
  | s, step :: rest => (s, step) :: moments next (next s step) rest

theorem moments_cons (next : State → Step → State) (s : State) (step : Step) (rest : List Step) :
    moments next s (step :: rest) = (s, step) :: moments next (next s step) rest :=
  rfl

theorem moments_concat (next : State → Step → State) (s : State) (steps : List Step)
    (last : Step) :
    moments next s (steps ++ [last]) =
      moments next s steps ++ [(steps.foldl next s, last)] := by
  induction steps generalizing s with
  | nil => rfl
  | cons step rest ih =>
      rw [List.cons_append, moments_cons, moments_cons, ih]
      rfl

/-- What breaks something is followed by something that mends it. -/
def Mended {α : Type} (Breaks Mends : α → Prop) : List α → Prop
  | [] => True
  | x :: rest => (Breaks x → ∃ y ∈ rest, Mends y) ∧ Mended Breaks Mends rest

instance Mended.decidable {α : Type} (Breaks Mends : α → Prop) [DecidablePred Breaks]
    [DecidablePred Mends] : (xs : List α) → Decidable (Mended Breaks Mends xs)
  | [] => .isTrue trivial
  | x :: rest =>
    have := Mended.decidable Breaks Mends rest
    inferInstanceAs (Decidable ((Breaks x → ∃ y ∈ rest, Mends y) ∧ Mended Breaks Mends rest))

/-- Let the property `I` hold after each step that does not break it, if it held before or the step
mends it.  Then it holds at the end of a run in which it is mended whenever it was broken. -/
theorem holds_of_mended {next : State → Step → State} {I : State → Prop}
    {Breaks Mends : State × Step → Prop}
    (hstep : ∀ s step, I s ∨ Mends (s, step) → ¬ Breaks (s, step) → I (next s step))
    {s : State} {steps : List Step} (hs : I s ∨ ∃ y ∈ moments next s steps, Mends y)
    (hmended : Mended Breaks Mends (moments next s steps)) : I (steps.foldl next s) := by
  induction steps generalizing s with
  | nil =>
      rcases hs with hholds | ⟨y, hy, -⟩
      · exact hholds
      · cases hy
  | cons step rest ih =>
      obtain ⟨hhead, htail⟩ := hmended
      refine ih ?_ htail
      by_cases hbreaks : Breaks (s, step)
      · exact .inr (hhead hbreaks)
      · rcases hs with hholds | ⟨y, hy, hmends⟩
        · exact .inl (hstep s step (.inl hholds) hbreaks)
        · rcases List.mem_cons.1 hy with rfl | hlater
          · exact .inl (hstep s step (.inr hmends) hbreaks)
          · exact .inr ⟨y, hlater, hmends⟩

end BranchPrediction
