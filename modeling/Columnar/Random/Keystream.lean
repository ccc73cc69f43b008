/-
# The keystream behind every random choice

Random words are the keystream of the ChaCha cipher with eight rounds, a
64-bit block counter from zero and stream number zero. A seed of 64 bits is
stretched to a key by a linear congruential generator with permuted output,
one key word for each step. So the words that follow a seed are the same
everywhere.

A keystream is a value: taking a word gives the word and the keystream after
it.

Key definitions: `Keystream`, `Keystream.ofSeed`, `Keystream.next32`,
`Keystream.next64`.
-/

namespace Columnar

/-- The state of the cipher, four rows of four words. -/
abbrev CipherState := Vector UInt32 16

namespace CipherState

def rotateLeft (x : UInt32) (n : UInt32) : UInt32 := (x <<< n) ||| (x >>> (32 - n))

/-- The quarter round on the words `a`, `b`, `c` and `d`. -/
def quarterRound (s : CipherState) (a b c d : Fin 16) : CipherState :=
  let xa := s[a] + s[b]
  let xd := rotateLeft (s[d] ^^^ xa) 16
  let xc := s[c] + xd
  let xb := rotateLeft (s[b] ^^^ xc) 12
  let xa := xa + xb
  let xd := rotateLeft (xd ^^^ xa) 8
  let xc := xc + xd
  let xb := rotateLeft (xb ^^^ xc) 7
  (((s.set a xa).set b xb).set c xc).set d xd

/-- A round down the columns and one along the diagonals. -/
def doubleRound (s : CipherState) : CipherState :=
  let s := s.quarterRound 0 4 8 12
  let s := s.quarterRound 1 5 9 13
  let s := s.quarterRound 2 6 10 14
  let s := s.quarterRound 3 7 11 15
  let s := s.quarterRound 0 5 10 15
  let s := s.quarterRound 1 6 11 12
  let s := s.quarterRound 2 7 8 13
  s.quarterRound 3 4 9 14

end CipherState

/-- The state that block `number` starts from. -/
def initialState (key : Vector UInt32 8) (number : UInt64) : CipherState :=
  (#v[0x61707865, 0x3320646e, 0x79622d32, 0x6b206574] : Vector UInt32 4) ++ key ++
    (#v[number.toUInt32, (number >>> 32).toUInt32, 0, 0] : Vector UInt32 4)

/-- The words of block `number`: eight rounds, added to where they began. -/
def cipherBlock (key : Vector UInt32 8) (number : UInt64) : CipherState :=
  let first := initialState key number
  let last := first.doubleRound.doubleRound.doubleRound.doubleRound
  first.zipWith (· + ·) last

/-- A keystream part of whose current block has been taken. -/
structure Keystream where
  key : Vector UInt32 8
  /-- The number of the block after the current one. -/
  number : UInt64
  block : CipherState
  /-- How many words of the current block have been taken. -/
  used : Nat
deriving DecidableEq

/-- One step of the generator that stretches a seed. -/
def seedStep (s : UInt64) : UInt64 := s * 6364136223846793005 + 11634580027462260723

/-- The key word that a state of the generator gives. -/
def seedWord (s : UInt64) : UInt32 :=
  let x := (((s >>> 18) ^^^ s) >>> 27).toUInt32
  let n := (s >>> 59).toUInt32
  (x >>> n) ||| (x <<< (32 - n))

/-- The generator after `n` steps from a seed. -/
def seedState (seed : UInt64) : Nat → UInt64
  | 0 => seed
  | n + 1 => seedStep (seedState seed n)

namespace Keystream

/-- The keystream of a seed, nothing taken. -/
def ofSeed (seed : UInt64) : Keystream where
  key := Vector.ofFn fun i => seedWord (seedState seed (i.val + 1))
  number := 0
  block := Vector.replicate 16 0
  used := 16

/-- The next word, and the keystream after it. -/
def next32 (k : Keystream) : UInt32 × Keystream :=
  if h : k.used < 16 then (k.block[k.used], { k with used := k.used + 1 })
  else
    let block := cipherBlock k.key k.number
    (block[0], { k with number := k.number + 1, block := block, used := 1 })

/-- Two words as one, the first of them the low half. -/
def next64 (k : Keystream) : UInt64 × Keystream :=
  let (low, k) := k.next32
  let (high, k) := k.next32
  (high.toUInt64 <<< 32 ||| low.toUInt64, k)

end Keystream
end Columnar
