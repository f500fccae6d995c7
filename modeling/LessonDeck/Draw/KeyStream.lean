/-!
# The key stream

A stream of 32-bit words made by the ChaCha block function with eight rounds.  A block is a
function of the key, the number of the stream and the number of the block, so that a word of the
stream depends on nothing but the key, the stream and its place.
-/

namespace LessonDeck.Draw

/-- The sixteen words that the block function works on. -/
abbrev Block :=
  Vector UInt32 16

def rotateLeft (x : UInt32) (n : UInt32) : UInt32 :=
  (x <<< n) ||| (x >>> (32 - n))

/-- Mixes four words of a block. -/
def quarterRound (s : Block) (a b c d : Fin 16) : Block :=
  let s := s.set a (s[a] + s[b])
  let s := s.set d (rotateLeft (s[d] ^^^ s[a]) 16)
  let s := s.set c (s[c] + s[d])
  let s := s.set b (rotateLeft (s[b] ^^^ s[c]) 12)
  let s := s.set a (s[a] + s[b])
  let s := s.set d (rotateLeft (s[d] ^^^ s[a]) 8)
  let s := s.set c (s[c] + s[d])
  s.set b (rotateLeft (s[b] ^^^ s[c]) 7)

def doubleRound (s : Block) : Block :=
  let s := quarterRound s 0 4 8 12
  let s := quarterRound s 1 5 9 13
  let s := quarterRound s 2 6 10 14
  let s := quarterRound s 3 7 11 15
  let s := quarterRound s 0 5 10 15
  let s := quarterRound s 1 6 11 12
  let s := quarterRound s 2 7 8 13
  quarterRound s 3 4 9 14

def repeated {α : Type} (f : α → α) : Nat → α → α
  | 0, a => a
  | n + 1, a => repeated f n (f a)

def doubleRounds : Nat :=
  4

/-- The block function: the mixed block added to the block itself. -/
def mix (s : Block) : Block :=
  Vector.zipWith (· + ·) (repeated doubleRound doubleRounds s) s

structure KeyStream where
  key : Vector UInt32 8
  stream : UInt64
  deriving Repr, DecidableEq

namespace KeyStream

def low (x : UInt64) : UInt32 :=
  x.toUInt32

def high (x : UInt64) : UInt32 :=
  (x >>> 32).toUInt32

/-- The block of a number before mixing: four constants, the key, the number and the stream. -/
def seedBlock (k : KeyStream) (number : UInt64) : Block :=
  #v[0x61707865, 0x3320646e, 0x79622d32, 0x6b206574,
    k.key[0], k.key[1], k.key[2], k.key[3], k.key[4], k.key[5], k.key[6], k.key[7],
    low number, high number, low k.stream, high k.stream]

def block (k : KeyStream) (number : UInt64) : Block :=
  mix (k.seedBlock number)

/-- The draw at a place of the stream: two consecutive words, the low half first. -/
def draw (k : KeyStream) (place : Nat) : UInt64 :=
  let b := k.block (UInt64.ofNat (place / 8))
  let i := 2 * (place % 8)
  (b.get ⟨i, by omega⟩).toUInt64 ||| ((b.get ⟨i + 1, by omega⟩).toUInt64 <<< 32)

def spreadNext (state : UInt64) : UInt64 :=
  state * 6364136223846793005 + 11634580027462260723

/-- The word that the spreading generator gives in a state: a part of the state turned right by an
amount that stands in its highest bits. -/
def spreadWord (state : UInt64) : UInt32 :=
  let x : UInt32 := (((state >>> 18) ^^^ state) >>> 27).toUInt32
  let n : UInt32 := (state >>> 59).toUInt32
  (x >>> n) ||| (x <<< ((32 - n) % 32))

def spread (state : UInt64) : Nat → List UInt32
  | 0 => []
  | n + 1 => spreadWord (spreadNext state) :: spread (spreadNext state) n

def ofSeed (seed : UInt64) (stream : UInt64) : KeyStream :=
  let words := spread seed 8
  ⟨Vector.ofFn fun i => words.getD i 0, stream⟩

end KeyStream

end LessonDeck.Draw
