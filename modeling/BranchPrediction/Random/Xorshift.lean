import BranchPrediction.Random.Source

/-!
# The random state of a predictor

A predictor draws from a 64-bit xorshift generator with a multiplied output.  Its whole state is
one word, so a checkpoint of the generator is a copy of the word, and restoring the copy replays
the draws.  The state is never zero: zero is a fixed point of the step, and a zero seed is
replaced.
-/

namespace BranchPrediction

/-- A xorshift generator whose entire state is one word. -/
structure Xorshift where
  word : UInt64
  deriving DecidableEq, Repr, Inhabited

namespace Xorshift

/-- Taken in place of a zero seed. -/
def zeroSeed : UInt64 := 0x9e3779b97f4a7c15

def ofSeed (seed : UInt64) : Xorshift :=
  ⟨if seed = 0 then zeroSeed else seed⟩

def advance (x : UInt64) : UInt64 :=
  let x := x ^^^ (x >>> 12)
  let x := x ^^^ (x <<< 25)
  x ^^^ (x >>> 27)

/-- Draw a word: the stepped state times an odd constant. -/
def next (g : Xorshift) : UInt64 × Xorshift :=
  let word := advance g.word
  (word * 0x2545f4914f6cdd1d, ⟨word⟩)

instance : RandomSource Xorshift := ⟨next⟩

/-- Draw half a word: the high half of a whole one. -/
def nextHalf (g : Xorshift) : UInt64 × Xorshift :=
  let (word, g) := g.next
  (word >>> 32, g)

/-- The `count` lowest bytes of a word, lowest first. -/
def lowBytes (count : Nat) (word : UInt64) : List UInt8 :=
  (List.range count).map fun i => (word >>> UInt64.ofNat (8 * i)).toUInt8

/-- Draw bytes: eight from each word, a rest of five to seven from one more word, and a shorter
rest from half a word. -/
def bytes (count : Nat) (g : Xorshift) : List UInt8 × Xorshift :=
  if 8 ≤ count then
    let (word, g) := g.next
    let (rest, g) := bytes (count - 8) g
    (lowBytes 8 word ++ rest, g)
  else if 4 < count then
    let (word, g) := g.next
    (lowBytes count word, g)
  else if 0 < count then
    let (half, g) := g.nextHalf
    (lowBytes count half, g)
  else ([], g)

end Xorshift

end BranchPrediction
