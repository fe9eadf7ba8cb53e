import BranchPrediction.Proofs.Word
import BranchPrediction.Random.Xorshift
import Mathlib.Logic.Function.Iterate

/-!
# Runs of draws

Every draw from the generator steps its state a number of times, once for each word that it takes:
`performAll_eq_iterate` says so of a whole run.  What holds of one step therefore holds of all runs.
The step is injective, since each of its three stages is: a word combined with a copy of itself
that was shifted by `n` places keeps `n` of its bits, and these give all others back, `n` at a time.
Zero stays zero, so no other state leads there, and a generator never starts there.
-/

namespace BranchPrediction

/-! ## Combining a word with a shifted copy of itself -/

/-- From the highest bits downwards. -/
theorem xor_shiftRight_injective {n : Nat} (hpos : 0 < n) (hlt : n < 64) :
    Function.Injective fun x : UInt64 => x ^^^ (x >>> UInt64.ofNat n) := by
  intro x y h
  have hbit : ∀ i, (wordBit x i ^^ wordBit x (n + i)) = (wordBit y i ^^ wordBit y (n + i)) := by
    intro i
    rw [← wordBit_shiftRight x hlt, ← wordBit_shiftRight y hlt, ← wordBit_xor, ← wordBit_xor]
    exact congrArg (wordBit · i) h
  have hall : ∀ distance i, 64 ≤ i + distance → wordBit x i = wordBit y i := by
    intro distance
    induction distance with
    | zero =>
        intro i hi
        rw [wordBit_of_ge x (i := i) hi, wordBit_of_ge y (i := i) hi]
    | succ distance ih =>
        intro i hi
        have hstep := hbit i
        rw [ih (n + i) (by omega)] at hstep
        exact Bool.xor_left_inj.1 hstep
  exact eq_of_wordBit_eq fun i _ => hall 64 i (by omega)

/-- From the lowest bits upwards. -/
theorem xor_shiftLeft_injective {n : Nat} (hpos : 0 < n) (hlt : n < 64) :
    Function.Injective fun x : UInt64 => x ^^^ (x <<< UInt64.ofNat n) := by
  intro x y h
  apply eq_of_wordBit_eq
  intro i
  induction i using Nat.strongRecOn with
  | ind i ih =>
      intro hi
      have hbit := congrArg (wordBit · i) h
      simp only [wordBit_xor, wordBit_shiftLeft _ hlt] at hbit
      by_cases hlow : i < n
      · simpa [hlow] using hbit
      · rw [ih (i - n) (by omega) (by omega)] at hbit
        exact Bool.xor_left_inj.1 hbit

namespace Xorshift

/-! ## The step -/

theorem advance_injective : Function.Injective advance := by
  have hfirst := xor_shiftRight_injective (n := 12) (by decide) (by decide)
  have hsecond := xor_shiftLeft_injective (n := 25) (by decide) (by decide)
  have hthird := xor_shiftRight_injective (n := 27) (by decide) (by decide)
  exact hthird.comp (hsecond.comp hfirst)

theorem advance_eq_zero_iff (x : UInt64) : advance x = 0 ↔ x = 0 := by
  have hzero : advance 0 = 0 := rfl
  rw [← hzero, advance_injective.eq_iff, hzero]

def successor (g : Xorshift) : Xorshift :=
  g.next.2

theorem successor_injective : Function.Injective successor := by
  intro g h heq
  have hword : advance g.word = advance h.word := congrArg word heq
  exact congrArg Xorshift.mk (advance_injective hword)

theorem word_iterate_ne_zero {g : Xorshift} (h : g.word ≠ 0) (n : Nat) :
    (successor^[n] g).word ≠ 0 := by
  induction n with
  | zero => exact h
  | succ n ih =>
      rw [Function.iterate_succ_apply']
      exact fun hzero => ih ((advance_eq_zero_iff _).1 hzero)

theorem word_ofSeed_ne_zero (seed : UInt64) : (ofSeed seed).word ≠ 0 := by
  unfold ofSeed
  split
  · decide
  · assumption

/-! ## Draws -/

/-- A draw of any kind. -/
inductive Draw where
  | word
  | half
  | bytes (count : Nat)
  /-- An event of a ratio. -/
  | ratio (num den : Nat)
  /-- A uniform number below a bound. -/
  | below (bound : UInt64)
  deriving DecidableEq, Repr

/-- The generator after a draw.  A draw that is refused leaves it as it is. -/
def perform (g : Xorshift) : Draw → Xorshift
  | .word => g.next.2
  | .half => g.nextHalf.2
  | .bytes count => (g.bytes count).2
  | .ratio num den => (RandomSource.ratio? num den g).elim g Prod.snd
  | .below bound => (RandomSource.below? bound g).elim g Prod.snd

/-- The number of words that are taken until one is accepted. -/
def triesWithin (bound zone : UInt64) : Nat → Xorshift → Nat
  | 0, _ => 0
  | tries + 1, g =>
    if g.next.1.toNat * bound.toNat % UInt64.size ≤ zone.toNat then 1
    else triesWithin bound zone tries g.successor + 1

/-- The number of words that a draw takes.  A certain event and a refused draw take none. -/
def wordsOf (g : Xorshift) : Draw → Nat
  | .word => 1
  | .half => 1
  | .bytes count => (count + 7) / 8
  | .ratio num den => if num < den then 1 else 0
  | .below bound =>
    if bound = 0 then 0
    else triesWithin bound (RandomSource.acceptedZone bound) UInt64.size g

def performAll (g : Xorshift) (draws : List Draw) : Xorshift :=
  draws.foldl perform g

/-- The number of words that are taken by draws one after another. -/
def wordsOfAll (g : Xorshift) : List Draw → Nat
  | [] => 0
  | draw :: draws => g.wordsOf draw + (g.perform draw).wordsOfAll draws

theorem bytes_eq_iterate (g : Xorshift) (count : Nat) :
    (g.bytes count).2 = successor^[(count + 7) / 8] g := by
  fun_induction bytes count g with
  | case1 count g hwhole word h hnext rest last hrest ih =>
      have hsuccessor : g.successor = h := congrArg Prod.snd hnext
      rw [hrest] at ih
      rw [show (count + 7) / 8 = (count - 8 + 7) / 8 + 1 by omega, Function.iterate_succ_apply,
        hsuccessor]
      exact ih
  | case2 count g hshort hlong word h hnext =>
      have hsuccessor : g.successor = h := congrArg Prod.snd hnext
      rw [show (count + 7) / 8 = 1 by omega, Function.iterate_one, hsuccessor]
  | case3 count g hshort hhalf hsome half h hnext =>
      have hsuccessor : g.successor = h := congrArg Prod.snd hnext
      rw [show (count + 7) / 8 = 1 by omega, Function.iterate_one, hsuccessor]
  | case4 count g hshort hhalf hnone =>
      rw [show (count + 7) / 8 = 0 by omega, Function.iterate_zero_apply]

theorem belowWithin_eq_iterate (bound zone : UInt64) (tries : Nat) (g : Xorshift) :
    (RandomSource.belowWithin bound zone tries g).2 =
      successor^[triesWithin bound zone tries g] g := by
  induction tries generalizing g with
  | zero => rfl
  | succ tries ih =>
      rw [RandomSource.belowWithin, triesWithin]
      change (if g.next.1.toNat * bound.toNat % UInt64.size ≤ zone.toNat then
        (_, g.successor) else RandomSource.belowWithin bound zone tries g.successor).2 = _
      split
      · rfl
      · rw [ih, Function.iterate_succ_apply]

theorem ratio?_eq_iterate (g : Xorshift) (num den : Nat) :
    (RandomSource.ratio? num den g).elim g Prod.snd = successor^[if num < den then 1 else 0] g := by
  unfold RandomSource.ratio? RandomSource.ratio
  by_cases hrefused : den = 0 ∨ den < num
  · have hnot : ¬ num < den := by omega
    rw [if_pos hrefused, if_neg hnot]
    rfl
  · rw [if_neg hrefused]
    by_cases hcertain : num = den
    · have hnot : ¬ num < den := by omega
      rw [if_pos hcertain, if_neg hnot]
      rfl
    · have hless : num < den := by omega
      rw [if_neg hcertain, if_pos hless]
      rfl

theorem below?_eq_iterate (g : Xorshift) (bound : UInt64) :
    (RandomSource.below? bound g).elim g Prod.snd =
      successor^[if bound = 0 then 0
        else triesWithin bound (RandomSource.acceptedZone bound) UInt64.size g] g := by
  unfold RandomSource.below? RandomSource.below
  split
  · rfl
  · rw [Option.elim_some, belowWithin_eq_iterate]

/-- A draw steps the generator once for each word that it takes. -/
theorem perform_eq_iterate (g : Xorshift) (draw : Draw) :
    g.perform draw = successor^[g.wordsOf draw] g := by
  cases draw with
  | word => rfl
  | half => rfl
  | bytes count => exact bytes_eq_iterate g count
  | ratio num den => exact ratio?_eq_iterate g num den
  | below bound => exact below?_eq_iterate g bound

theorem performAll_eq_iterate (g : Xorshift) (draws : List Draw) :
    g.performAll draws = successor^[g.wordsOfAll draws] g := by
  induction draws generalizing g with
  | nil => rfl
  | cons draw draws ih =>
      rw [wordsOfAll, Nat.add_comm, Function.iterate_add_apply, ← perform_eq_iterate, ← ih]
      rfl

/-- The state neither sticks nor merges.  No run of draws from a seed, zero included, reaches the
zero word; the step of the state from word to word is injective; every run takes one such step for
each word that it draws; and so two runs that start differently end differently if they draw as
many words, whatever the kinds of their draws. -/
theorem states_neither_stick_nor_merge :
    (∀ (seed : UInt64) (draws : List Draw), ((ofSeed seed).performAll draws).word ≠ 0) ∧
      (Function.Injective fun word : UInt64 => (next ⟨word⟩).2.word) ∧
      (∀ (g : Xorshift) (draws : List Draw),
        g.performAll draws = (fun g => g.next.2)^[g.wordsOfAll draws] g) ∧
      ∀ (g h : Xorshift) (draws others : List Draw), g ≠ h →
        g.wordsOfAll draws = h.wordsOfAll others → g.performAll draws ≠ h.performAll others := by
  refine ⟨?_, advance_injective, performAll_eq_iterate, ?_⟩
  · intro seed draws
    rw [performAll_eq_iterate]
    exact word_iterate_ne_zero (word_ofSeed_ne_zero seed) _
  · intro g h draws others hne hwords heq
    rw [performAll_eq_iterate, performAll_eq_iterate, ← hwords] at heq
    exact hne (successor_injective.iterate _ heq)

/-- Draws of all kinds, from the seed zero and from one.  Each run takes four words; the first word
of the second run is one that `below` does not accept. -/
theorem draws_of_four_words_keep_apart :
    ofSeed 0 ≠ ofSeed 1 ∧
      (ofSeed 0).wordsOfAll [.half, .ratio 1 4, .ratio 1 1, .word, .word] = 4 ∧
      (ofSeed 1).wordsOfAll [.below 3, .bytes 13] = 4 ∧
      (ofSeed 0).performAll [.half, .ratio 1 4, .ratio 1 1, .word, .word] ≠
        (ofSeed 1).performAll [.below 3, .bytes 13] := by
  have hne : ofSeed 0 ≠ ofSeed 1 := by decide
  have hwords : (ofSeed 0).wordsOfAll [.half, .ratio 1 4, .ratio 1 1, .word, .word] = 4 := rfl
  have hothers : (ofSeed 1).wordsOfAll [.below 3, .bytes 13] = 4 := rfl
  obtain ⟨-, -, -, hapart⟩ := states_neither_stick_nor_merge
  exact ⟨hne, hwords, hothers, hapart _ _ _ _ hne (hwords.trans hothers.symm)⟩

end Xorshift

end BranchPrediction
