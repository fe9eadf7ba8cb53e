import Mathlib.Data.List.TakeWhile
import Mathlib.Order.Bounds.Basic

/-!
# Searching a list that increases

In a list of numbers that increases, what a search finds first is the least, and what it passes over
is what comes before.
-/

namespace BranchPrediction

section

variable {xs : List Nat} (hxs : xs.Pairwise (· < ·)) {p : Nat → Bool} {x : Nat}

include hxs

theorem isLeast_of_find? (hfound : xs.find? p = some x) :
    IsLeast {y | y ∈ xs ∧ p y = true} x := by
  refine ⟨⟨List.mem_of_find?_eq_some hfound, List.find?_some hfound⟩, ?_⟩
  rintro y ⟨hy, hpy⟩
  obtain ⟨-, before, after, rfl, hbefore⟩ := List.find?_eq_some_iff_append.1 hfound
  obtain ⟨-, hafter, -⟩ := List.pairwise_append.1 hxs
  rcases List.mem_append.1 hy with hmem | hmem
  · have hnot := hbefore y hmem
    rw [hpy] at hnot
    cases hnot
  · rcases List.mem_cons.1 hmem with rfl | hrest
    · exact le_refl _
    · exact (List.rel_of_pairwise_cons hafter hrest).le

theorem find?_eq_some_iff_isLeast :
    xs.find? p = some x ↔ IsLeast {y | y ∈ xs ∧ p y = true} x := by
  refine ⟨isLeast_of_find? hxs, fun hleast => ?_⟩
  cases hfound : xs.find? p with
  | none => exact absurd hleast.1.2 (List.find?_eq_none.1 hfound x hleast.1.1)
  | some y => rw [(isLeast_of_find? hxs hfound).unique hleast]

/-- What a search passes over is what comes before the place where it stops. -/
theorem mem_takeWhile_not_iff :
    x ∈ xs.takeWhile (fun y => !p y) ↔ x ∈ xs ∧ ∀ y, xs.find? p = some y → x < y := by
  induction xs with
  | nil => simp
  | cons first rest ih =>
      obtain ⟨hfirst, hrest⟩ := List.pairwise_cons.1 hxs
      cases hp : p first with
      | true =>
          rw [List.takeWhile_cons_of_neg (by simp [hp]), List.find?_cons_of_pos hp]
          refine iff_of_false List.not_mem_nil ?_
          rintro ⟨hmem, hbefore⟩
          have hlt := hbefore first rfl
          rcases List.mem_cons.1 hmem with rfl | hmem
          · exact Nat.lt_irrefl _ hlt
          · exact Nat.lt_asymm hlt (hfirst x hmem)
      | false =>
          rw [List.takeWhile_cons_of_pos (by simp [hp]), List.find?_cons_of_neg (by simp [hp]),
            List.mem_cons, List.mem_cons, ih hrest]
          constructor
          · rintro (rfl | ⟨hmem, hbefore⟩)
            · exact ⟨.inl rfl, fun y hy => hfirst y (List.mem_of_find?_eq_some hy)⟩
            · exact ⟨.inr hmem, hbefore⟩
          · rintro ⟨rfl | hmem, hbefore⟩
            · exact .inl rfl
            · exact .inr ⟨hmem, hbefore⟩

end

end BranchPrediction
