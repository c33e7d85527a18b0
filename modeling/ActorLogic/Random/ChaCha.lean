/-!
# ChaCha with twelve rounds

A key of eight words and a block number give sixteen words that look random. The words of the blocks
0, 1, 2, … in order are the keystream of the key.
-/

namespace ActorLogic.ChaCha

abbrev Key := Vector UInt32 8

/-- The sixteen words that the rounds mix. -/
abbrev Block := Vector UInt32 16

/-- Turn the bits of a word left by `n` places, where `0 < n < 32`. -/
def rotateLeft (x n : UInt32) : UInt32 := (x <<< n) ||| (x >>> (32 - n))

/-- Mix the words at four places. -/
def quarterRound (s : Block) (a b c d : Fin 16) : Block :=
  let s := s.set a (s[a] + s[b])
  let s := s.set d (rotateLeft (s[d] ^^^ s[a]) 16)
  let s := s.set c (s[c] + s[d])
  let s := s.set b (rotateLeft (s[b] ^^^ s[c]) 12)
  let s := s.set a (s[a] + s[b])
  let s := s.set d (rotateLeft (s[d] ^^^ s[a]) 8)
  let s := s.set c (s[c] + s[d])
  s.set b (rotateLeft (s[b] ^^^ s[c]) 7)

/-- A round over the columns and a round over the diagonals. -/
def doubleRound (s : Block) : Block :=
  let s := quarterRound s 0 4 8 12
  let s := quarterRound s 1 5 9 13
  let s := quarterRound s 2 6 10 14
  let s := quarterRound s 3 7 11 15
  let s := quarterRound s 0 5 10 15
  let s := quarterRound s 1 6 11 12
  let s := quarterRound s 2 7 8 13
  quarterRound s 3 4 9 14

/-- The four words that every block begins with. -/
def constants : Vector UInt32 4 := #v[0x61707865, 0x3320646e, 0x79622d32, 0x6b206574]

/-- The number of a block as two words, the low one first, and two zeros. -/
def counter (number : UInt64) : Vector UInt32 4 :=
  #v[number.toUInt32, (number >>> 32).toUInt32, 0, 0]

/-- The words before mixing: the constants, the key and the block number. -/
def start (key : Key) (number : UInt64) : Block := constants ++ key ++ counter number

/-- A block of the keystream: six double rounds, added to the words they began with. -/
def block (key : Key) (number : UInt64) : Block :=
  let s := start key number
  Vector.zipWith (· + ·) (Nat.repeat doubleRound 6 s) s

end ActorLogic.ChaCha
