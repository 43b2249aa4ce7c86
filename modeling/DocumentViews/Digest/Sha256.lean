/-!
The hash function SHA-256 on lists of bytes. A message is padded to whole
blocks of sixteen words, and each block is compressed into a state of eight
words in sixty-four rounds. A round uses the first word of a window of sixteen
and moves the window on by one.
-/

namespace DocumentViews.Sha256

/-- Turns the bits of a word to the right. -/
def rotate (word : UInt32) (count : UInt32) : UInt32 :=
  (word >>> count) ||| (word <<< (32 - count))

/-- The fractional parts of the cube roots of the first 64 primes. -/
def roundConstants : List UInt32 :=
  [0x428a2f98, 0x71374491, 0xb5c0fbcf, 0xe9b5dba5, 0x3956c25b, 0x59f111f1, 0x923f82a4, 0xab1c5ed5,
    0xd807aa98, 0x12835b01, 0x243185be, 0x550c7dc3, 0x72be5d74, 0x80deb1fe, 0x9bdc06a7, 0xc19bf174,
    0xe49b69c1, 0xefbe4786, 0x0fc19dc6, 0x240ca1cc, 0x2de92c6f, 0x4a7484aa, 0x5cb0a9dc, 0x76f988da,
    0x983e5152, 0xa831c66d, 0xb00327c8, 0xbf597fc7, 0xc6e00bf3, 0xd5a79147, 0x06ca6351, 0x14292967,
    0x27b70a85, 0x2e1b2138, 0x4d2c6dfc, 0x53380d13, 0x650a7354, 0x766a0abb, 0x81c2c92e, 0x92722c85,
    0xa2bfe8a1, 0xa81a664b, 0xc24b8b70, 0xc76c51a3, 0xd192e819, 0xd6990624, 0xf40e3585, 0x106aa070,
    0x19a4c116, 0x1e376c08, 0x2748774c, 0x34b0bcb5, 0x391c0cb3, 0x4ed8aa4a, 0x5b9cca4f, 0x682e6ff3,
    0x748f82ee, 0x78a5636f, 0x84c87814, 0x8cc70208, 0x90befffa, 0xa4506ceb, 0xbef9a3f7, 0xc67178f2]

structure State where
  a : UInt32
  b : UInt32
  c : UInt32
  d : UInt32
  e : UInt32
  f : UInt32
  g : UInt32
  h : UInt32

/-- The fractional parts of the square roots of the first eight primes. -/
def State.start : State :=
  ⟨0x6a09e667, 0xbb67ae85, 0x3c6ef372, 0xa54ff53a, 0x510e527f, 0x9b05688c, 0x1f83d9ab, 0x5be0cd19⟩

def State.words (s : State) : List UInt32 :=
  [s.a, s.b, s.c, s.d, s.e, s.f, s.g, s.h]

def State.add (s t : State) : State :=
  ⟨s.a + t.a, s.b + t.b, s.c + t.c, s.d + t.d, s.e + t.e, s.f + t.f, s.g + t.g, s.h + t.h⟩

/-- One round with the sum of its constant and its word of the message. -/
def State.round (s : State) (input : UInt32) : State :=
  let s1 := rotate s.e 6 ^^^ rotate s.e 11 ^^^ rotate s.e 25
  let choice := (s.e &&& s.f) ^^^ (~~~s.e &&& s.g)
  let t1 := s.h + s1 + choice + input
  let s0 := rotate s.a 2 ^^^ rotate s.a 13 ^^^ rotate s.a 22
  let majority := (s.a &&& s.b) ^^^ (s.a &&& s.c) ^^^ (s.b &&& s.c)
  ⟨t1 + (s0 + majority), s.a, s.b, s.c, s.d + t1, s.e, s.f, s.g⟩

/-- The word that follows the sixteen of a window. -/
def nextWord (window : List UInt32) : UInt32 :=
  let w0 := window.getD 0 0
  let w1 := window.getD 1 0
  let w9 := window.getD 9 0
  let w14 := window.getD 14 0
  let s0 := rotate w1 7 ^^^ rotate w1 18 ^^^ (w1 >>> 3)
  let s1 := rotate w14 17 ^^^ rotate w14 19 ^^^ (w14 >>> 10)
  w0 + s0 + w9 + s1

/-- Does a round for each constant, with a window on the words of the message. -/
def rounds (state : State) (window : List UInt32) : List UInt32 → State
  | [] => state
  | constant :: rest =>
    rounds (state.round (constant + window.getD 0 0)) (window.drop 1 ++ [nextWord window]) rest

def compress (state : State) (block : List UInt32) : State :=
  state.add (rounds state block roundConstants)

/-- Compresses the first `count` blocks of the words. -/
def compressBlocks (count : Nat) (state : State) (words : List UInt32) : State :=
  match count with
  | 0 => state
  | count + 1 => compressBlocks count (compress state (words.take 16)) (words.drop 16)

/-- The last `count` bytes of a number, the most significant first. -/
def bytesOf (count : Nat) (number : Nat) : List UInt8 :=
  match count with
  | 0 => []
  | count + 1 => (number / 256 ^ count % 256).toUInt8 :: bytesOf count number

/-- The message, a bit, zeros up to eight bytes before the end of a block, and
the length in bits. -/
def padded (message : List UInt8) : List UInt8 :=
  let zeros := (119 - message.length % 64) % 64
  message ++ 0x80 :: List.replicate zeros 0 ++ bytesOf 8 (8 * message.length)

def wordsOf : List UInt8 → List UInt32
  | a :: b :: c :: d :: rest =>
    (a.toUInt32 <<< 24 ||| b.toUInt32 <<< 16 ||| c.toUInt32 <<< 8 ||| d.toUInt32) :: wordsOf rest
  | _ => []

/-- The hash of a message in bytes. -/
def hash (message : List UInt8) : List UInt8 :=
  let words := wordsOf (padded message)
  let final := compressBlocks (words.length / 16) State.start words
  final.words.flatMap fun word => bytesOf 4 word.toNat

/-- Bytes as hexadecimal digits in lower case. -/
def hexDigits (bytes : List UInt8) : List Char :=
  bytes.flatMap fun byte => [Nat.digitChar (byte.toNat / 16), Nat.digitChar (byte.toNat % 16)]

/-- The hash of the UTF-8 form of a text, in hexadecimal digits. -/
def hexHash (text : String) : String :=
  String.ofList (hexDigits (hash text.toUTF8.data.toList))

end DocumentViews.Sha256
