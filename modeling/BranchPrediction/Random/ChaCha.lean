import BranchPrediction.Random.Source

/-!
# The random stream of a workload

The ChaCha stream cipher with twelve rounds, used as a source of random words.  The key is spread
from a 64-bit seed by a permuted congruential generator, the block counter is a 64-bit number that
starts at zero, and the stream number is zero.  A word of output joins two consecutive 32-bit words
of the key stream, the low half first.
-/

namespace BranchPrediction

/-- The ChaCha key stream: its key, the number of the next block, and the words of the current
block that are still to be drawn. -/
structure ChaCha where
  key : Vector UInt32 8
  block : UInt64
  pending : List UInt64

namespace ChaCha

/-- The sixteen words that a block is made from. -/
abbrev State := Vector UInt32 16

/-- Rotate a word to the left, for an amount between 1 and 31. -/
def rotateLeft (x : UInt32) (amount : UInt32) : UInt32 :=
  (x <<< amount) ||| (x >>> (32 - amount))

/-- The quarter round on four words of the state. -/
def quarterRound (a b c d : Fin 16) (s : State) : State :=
  let s := s.set a (s[a] + s[b])
  let s := s.set d (rotateLeft (s[d] ^^^ s[a]) 16)
  let s := s.set c (s[c] + s[d])
  let s := s.set b (rotateLeft (s[b] ^^^ s[c]) 12)
  let s := s.set a (s[a] + s[b])
  let s := s.set d (rotateLeft (s[d] ^^^ s[a]) 8)
  let s := s.set c (s[c] + s[d])
  s.set b (rotateLeft (s[b] ^^^ s[c]) 7)

/-- Two rounds: the four columns, then the four diagonals. -/
def doubleRound (s : State) : State :=
  s |> quarterRound 0 4 8 12 |> quarterRound 1 5 9 13
    |> quarterRound 2 6 10 14 |> quarterRound 3 7 11 15
    |> quarterRound 0 5 10 15 |> quarterRound 1 6 11 12
    |> quarterRound 2 7 8 13 |> quarterRound 3 4 9 14

/-- The state that a block starts from: four constants, the key, the block number and the
stream number. -/
def initialState (key : Vector UInt32 8) (block : UInt64) : State :=
  #v[0x61707865, 0x3320646e, 0x79622d32, 0x6b206574,
     key[0], key[1], key[2], key[3], key[4], key[5], key[6], key[7],
     block.toUInt32, (block >>> 32).toUInt32, 0, 0]

/-- The sixteen words of a block of the key stream, after six double rounds. -/
def keyStream (key : Vector UInt32 8) (block : UInt64) : State :=
  let start := initialState key block
  let mixed := (List.range 6).foldl (fun s _ => doubleRound s) start
  Vector.zipWith (· + ·) start mixed

def joinPairs : List UInt32 → List UInt64
  | low :: high :: rest => (low.toUInt64 ||| (high.toUInt64 <<< 32)) :: joinPairs rest
  | _ => []

def blockWords (key : Vector UInt32 8) (block : UInt64) : List UInt64 :=
  joinPairs (keyStream key block).toList

/-- Draw a word, going on to the next block when the current one is used up. -/
def next (g : ChaCha) : UInt64 × ChaCha :=
  match g.pending with
  | word :: rest => (word, { g with pending := rest })
  | [] =>
    let words := blockWords g.key g.block
    (words.headD 0, { g with block := g.block + 1, pending := words.tail })

instance : RandomSource ChaCha := ⟨next⟩

/-- One step of the generator that spreads a seed over the key. -/
def spread (state : UInt64) : UInt32 × UInt64 :=
  let state := state * 6364136223846793005 + 11634580027462260723
  let mixed := (((state >>> 18) ^^^ state) >>> 27).toUInt32
  let turn := (state >>> 59).toUInt32
  (rotateRight mixed turn, state)
where
  /-- Rotate a word to the right, for an amount between 0 and 31. -/
  rotateRight (x amount : UInt32) : UInt32 :=
    (x >>> amount) ||| (x <<< ((32 - amount) % 32))

def keyWords : Nat → UInt64 → List UInt32
  | 0, _ => []
  | n + 1, state =>
    let (word, state) := spread state
    word :: keyWords n state

theorem length_keyWords (n : Nat) (state : UInt64) : (keyWords n state).length = n := by
  induction n generalizing state with
  | zero => rfl
  | succ n ih => simp [keyWords, ih]

def ofSeed (seed : UInt64) : ChaCha where
  key := ⟨(keyWords 8 seed).toArray, by simp [length_keyWords]⟩
  block := 0
  pending := []

end ChaCha

end BranchPrediction
