/-!
A stream of random words: the ChaCha block function with eight rounds, run on a 256-bit key and a
64-bit block counter. A seed of 64 bits is stretched to a key.
-/

namespace SnakeDraft.Random

def rotateLeft (x n : UInt32) : UInt32 :=
  x <<< n ||| x >>> (32 - n)

def rotateRight (x n : UInt32) : UInt32 :=
  x >>> n ||| x <<< (32 - n)

/-- The sixteen words that a block is computed from, and the block itself. -/
abbrev Block := Vector UInt32 16

/-- One quarter round on the words at four places. -/
def quarterRound (s : Block) (i j k l : Fin 16) : Block :=
  let a := s[i] + s[j]
  let d := rotateLeft (s[l] ^^^ a) 16
  let c := s[k] + d
  let b := rotateLeft (s[j] ^^^ c) 12
  let a := a + b
  let d := rotateLeft (d ^^^ a) 8
  let c := c + d
  let b := rotateLeft (b ^^^ c) 7
  (((s.set i a).set j b).set k c).set l d

/-- A round on the columns and a round on the diagonals. -/
def doubleRound (s : Block) : Block :=
  let s := quarterRound s 0 4 8 12
  let s := quarterRound s 1 5 9 13
  let s := quarterRound s 2 6 10 14
  let s := quarterRound s 3 7 11 15
  let s := quarterRound s 0 5 10 15
  let s := quarterRound s 1 6 11 12
  let s := quarterRound s 2 7 8 13
  quarterRound s 3 4 9 14

/-- The constants that a block starts with. -/
def constants : Vector UInt32 4 :=
  #v[0x61707865, 0x3320646e, 0x79622d32, 0x6b206574]

/-- The block of a key at a place of the stream. -/
def block (key : Vector UInt32 8) (counter : UInt64) : Block :=
  let start : Block :=
    constants ++ key ++ #v[counter.toUInt32, (counter >>> 32).toUInt32, 0, 0]
  let mixed := Nat.repeat doubleRound 4 start
  start.zipWith (· + ·) mixed

/-- A source of random words. -/
structure Generator where
  key : Vector UInt32 8
  /-- The number of blocks produced. -/
  counter : UInt64
  /-- The words of the last block that are still to be used. -/
  pending : List UInt32
deriving Repr

namespace Generator

/-- One step of the linear congruence that stretches a seed. -/
def stretch (state : UInt64) : UInt64 :=
  state * 6364136223846793005 + 11634580027462260723

/-- A word of the key: the state with its high bits folded in, rotated by its highest ones. -/
def keyWord (state : UInt64) : UInt32 :=
  rotateRight (((state >>> 18) ^^^ state) >>> 27).toUInt32 (state >>> 59).toUInt32

/-- The generator of a seed. -/
def ofSeed (seed : UInt64) : Generator where
  key := Vector.ofFn fun i : Fin 8 => keyWord (Nat.repeat stretch (i + 1) seed)
  counter := 0
  pending := []

/-- The next word. -/
def word (g : Generator) : UInt32 × Generator :=
  match g.pending with
  | w :: ws => (w, { g with pending := ws })
  | [] =>
    let words := block g.key g.counter
    (words[0], { g with counter := g.counter + 1, pending := words.toList.drop 1 })

/-- The next two words as one number, the first being the low half. -/
def double (g : Generator) : UInt64 × Generator :=
  let (low, g) := g.word
  let (high, g) := g.word
  (high.toUInt64 <<< 32 ||| low.toUInt64, g)

end Generator

end SnakeDraft.Random
