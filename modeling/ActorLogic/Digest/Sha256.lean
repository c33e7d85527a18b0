/-!
# SHA-256

The digest of a message is 32 bytes. The message is padded to whole blocks of 64 bytes, and each
block is mixed into eight words in 64 rounds. A hasher takes a message part by part; at any time it
gives the digest of what it has taken.
-/

namespace ActorLogic.Sha256

/-- The eight words that the blocks are mixed into. -/
abbrev State := Vector UInt32 8

/-! ## Constants -/

/-- The first 32 bits behind the point of the square roots of the first eight primes. -/
def initial : State :=
  #v[0x6a09e667, 0xbb67ae85, 0x3c6ef372, 0xa54ff53a,
     0x510e527f, 0x9b05688c, 0x1f83d9ab, 0x5be0cd19]

/-- The first 32 bits behind the point of the cube roots of the first 64 primes. -/
def roundConstants : List UInt32 :=
  [ 0x428a2f98, 0x71374491, 0xb5c0fbcf, 0xe9b5dba5, 0x3956c25b, 0x59f111f1,
    0x923f82a4, 0xab1c5ed5, 0xd807aa98, 0x12835b01, 0x243185be, 0x550c7dc3,
    0x72be5d74, 0x80deb1fe, 0x9bdc06a7, 0xc19bf174, 0xe49b69c1, 0xefbe4786,
    0x0fc19dc6, 0x240ca1cc, 0x2de92c6f, 0x4a7484aa, 0x5cb0a9dc, 0x76f988da,
    0x983e5152, 0xa831c66d, 0xb00327c8, 0xbf597fc7, 0xc6e00bf3, 0xd5a79147,
    0x06ca6351, 0x14292967, 0x27b70a85, 0x2e1b2138, 0x4d2c6dfc, 0x53380d13,
    0x650a7354, 0x766a0abb, 0x81c2c92e, 0x92722c85, 0xa2bfe8a1, 0xa81a664b,
    0xc24b8b70, 0xc76c51a3, 0xd192e819, 0xd6990624, 0xf40e3585, 0x106aa070,
    0x19a4c116, 0x1e376c08, 0x2748774c, 0x34b0bcb5, 0x391c0cb3, 0x4ed8aa4a,
    0x5b9cca4f, 0x682e6ff3, 0x748f82ee, 0x78a5636f, 0x84c87814, 0x8cc70208,
    0x90befffa, 0xa4506ceb, 0xbef9a3f7, 0xc67178f2]

/-! ## Padding -/

/-- A word as four bytes, the high one first. -/
def wordBytes (w : UInt32) : List UInt8 :=
  [(w >>> 24).toUInt8, (w >>> 16).toUInt8, (w >>> 8).toUInt8, w.toUInt8]

/-- A number below `2 ^ 64` as eight bytes, the high one first. -/
def lengthBytes (n : UInt64) : List UInt8 :=
  wordBytes (n >>> 32).toUInt32 ++ wordBytes n.toUInt32

/-- What follows a message of `size` bytes: one set bit, zeros up to a whole block, and the
message's length in bits in the last eight bytes. -/
def padding (size : Nat) : List UInt8 :=
  128 :: (List.replicate ((119 - size % 64) % 64) 0 ++ lengthBytes (UInt64.ofNat (8 * size)))

/-! ## Rounds -/

/-- Turn the bits of a word right by `n` places, where `0 < n < 32`. -/
def rotateRight (x n : UInt32) : UInt32 := (x >>> n) ||| (x <<< (32 - n))

/-- The byte at a place, as a word. -/
def byteAt (data : ByteArray) (i : Nat) : UInt32 := (data[i]?.getD 0).toUInt32

/-- The word that begins at a place. -/
def wordAt (data : ByteArray) (i : Nat) : UInt32 :=
  (byteAt data i <<< 24) ||| (byteAt data (i + 1) <<< 16) ||| (byteAt data (i + 2) <<< 8)
    ||| byteAt data (i + 3)

/-- The word that follows the words `ws` of a schedule, which has sixteen words at least. -/
def nextWord (ws : Array UInt32) : UInt32 :=
  let w := fun (back : Nat) => ws.getD (ws.size - back) 0
  let x := w 15
  let y := w 2
  w 16 + (rotateRight x 7 ^^^ rotateRight x 18 ^^^ (x >>> 3)) + w 7
    + (rotateRight y 17 ^^^ rotateRight y 19 ^^^ (y >>> 10))

/-- The 64 words of the block that begins at a place: its own sixteen, and 48 that follow. -/
def schedule (data : ByteArray) (start : Nat) : Array UInt32 :=
  Nat.repeat (fun ws => ws.push (nextWord ws)) 48
    (Array.ofFn fun i : Fin 16 => wordAt data (start + 4 * i))

/-- A round with a constant and a word of the schedule. -/
def round (s : State) (k w : UInt32) : State :=
  let a := s[0]
  let e := s[4]
  let choice := (e &&& s[5]) ^^^ (~~~e &&& s[6])
  let majority := (a &&& s[1]) ^^^ (a &&& s[2]) ^^^ (s[1] &&& s[2])
  let t := s[7] + (rotateRight e 6 ^^^ rotateRight e 11 ^^^ rotateRight e 25) + choice + k + w
  let u := (rotateRight a 2 ^^^ rotateRight a 13 ^^^ rotateRight a 22) + majority
  #v[t + u, a, s[1], s[2], s[3] + t, e, s[5], s[6]]

/-- Mix in the block that begins at a place. -/
def compress (s : State) (data : ByteArray) (start : Nat) : State :=
  let rounds := roundConstants.zip (schedule data start).toList
  Vector.zipWith (· + ·) s (rounds.foldl (fun s (k, w) => round s k w) s)

/-- Mix in the whole blocks of the data, in order. -/
def mix (s : State) (data : ByteArray) : State :=
  (List.range (data.size / 64)).foldl (fun s i => compress s data (64 * i)) s

/-! ## Digests -/

structure Hasher where
  /-- The words that the whole blocks were mixed into. -/
  state : State := initial
  /-- The bytes behind the last whole block. -/
  pending : ByteArray := .empty
  /-- How many bytes were taken. -/
  size : Nat := 0

/-- Take the next part of the message. -/
def Hasher.absorb (h : Hasher) (part : ByteArray) : Hasher :=
  let data := h.pending ++ part
  { state := mix h.state data
    pending := data.extract (data.size / 64 * 64) data.size
    size := h.size + part.size }

/-- The 32 bytes of the digest of the message so far. -/
def Hasher.digest (h : Hasher) : List UInt8 :=
  (mix h.state (h.pending ++ (padding h.size).toByteArray)).toList.flatMap wordBytes

/-- The digest of a message. -/
def digest (message : ByteArray) : List UInt8 := (Hasher.absorb {} message).digest

/-- The hexadecimal digit of a number below 16. -/
def hexDigit (n : UInt8) : Char := Nat.digitChar n.toNat

/-- Bytes as lower-case hexadecimal digits, two for each. -/
def hex (bytes : List UInt8) : String :=
  String.ofList (bytes.flatMap fun (b : UInt8) => [hexDigit (b >>> 4), hexDigit (b &&& 15)])

end ActorLogic.Sha256
