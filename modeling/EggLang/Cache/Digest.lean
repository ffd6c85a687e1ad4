import EggLang.Bytes

/-!
# Digests

The SHA-256 digest of a text. The message schedule is kept with the latest word first, so each new
word is read off four fixed places of it.
-/

namespace EggLang.Digest

/-- The round constants: the first 32 bits of the fractional parts of the cube roots of the first
64 primes. -/
def roundConstants : List UInt32 :=
  [0x428a2f98, 0x71374491, 0xb5c0fbcf, 0xe9b5dba5, 0x3956c25b, 0x59f111f1, 0x923f82a4, 0xab1c5ed5,
    0xd807aa98, 0x12835b01, 0x243185be, 0x550c7dc3, 0x72be5d74, 0x80deb1fe, 0x9bdc06a7, 0xc19bf174,
    0xe49b69c1, 0xefbe4786, 0x0fc19dc6, 0x240ca1cc, 0x2de92c6f, 0x4a7484aa, 0x5cb0a9dc, 0x76f988da,
    0x983e5152, 0xa831c66d, 0xb00327c8, 0xbf597fc7, 0xc6e00bf3, 0xd5a79147, 0x06ca6351, 0x14292967,
    0x27b70a85, 0x2e1b2138, 0x4d2c6dfc, 0x53380d13, 0x650a7354, 0x766a0abb, 0x81c2c92e, 0x92722c85,
    0xa2bfe8a1, 0xa81a664b, 0xc24b8b70, 0xc76c51a3, 0xd192e819, 0xd6990624, 0xf40e3585, 0x106aa070,
    0x19a4c116, 0x1e376c08, 0x2748774c, 0x34b0bcb5, 0x391c0cb3, 0x4ed8aa4a, 0x5b9cca4f, 0x682e6ff3,
    0x748f82ee, 0x78a5636f, 0x84c87814, 0x8cc70208, 0x90befffa, 0xa4506ceb, 0xbef9a3f7, 0xc67178f2]

/-- The eight words a digest is built up in. -/
structure Words where
  a : UInt32
  b : UInt32
  c : UInt32
  d : UInt32
  e : UInt32
  f : UInt32
  g : UInt32
  h : UInt32
  deriving DecidableEq, Repr

/-- The words before the first block: the first 32 bits of the fractional parts of the square
roots of the first eight primes. -/
def Words.initial : Words :=
  ⟨0x6a09e667, 0xbb67ae85, 0x3c6ef372, 0xa54ff53a, 0x510e527f, 0x9b05688c, 0x1f83d9ab, 0x5be0cd19⟩

def rotate (x n : UInt32) : UInt32 := (x >>> n) ||| (x <<< (32 - n))

/-- The message with its padding: a one bit, zeros up to eight bytes before a multiple of 64, and
the length in bits. -/
def padded (message : Bytes) : Bytes :=
  let zeros := (119 - message.length % 64) % 64
  let bits := 8 * message.length
  let size := (List.range 8).map fun i => (bits / Nat.pow 256 (7 - i)).toUInt8
  message ++ [0x80] ++ List.replicate zeros 0 ++ size

def wordsOf : Bytes → List UInt32
  | a :: b :: c :: d :: rest =>
    ((a.toUInt32 <<< 24) ||| (b.toUInt32 <<< 16) ||| (c.toUInt32 <<< 8) ||| d.toUInt32)
      :: wordsOf rest
  | _ => []

/-- The next word of a schedule that has its latest word first. -/
def nextWord (schedule : List UInt32) : UInt32 :=
  let at_ (i : Nat) := schedule.getD i 0
  let x := at_ 14
  let y := at_ 1
  at_ 15 + (rotate x 7 ^^^ rotate x 18 ^^^ (x >>> 3)) + at_ 6
    + (rotate y 17 ^^^ rotate y 19 ^^^ (y >>> 10))

/-- The schedule with `n` more words. -/
def extend : (n : Nat) → List UInt32 → List UInt32
  | 0, schedule => schedule
  | n + 1, schedule => extend n (nextWord schedule :: schedule)

def round (s : Words) (word constant : UInt32) : Words :=
  let choice := (s.e &&& s.f) ^^^ ((s.e ^^^ 0xFFFFFFFF) &&& s.g)
  let majority := (s.a &&& s.b) ^^^ (s.a &&& s.c) ^^^ (s.b &&& s.c)
  let t := s.h + (rotate s.e 6 ^^^ rotate s.e 11 ^^^ rotate s.e 25) + choice + constant + word
  let u := (rotate s.a 2 ^^^ rotate s.a 13 ^^^ rotate s.a 22) + majority
  ⟨t + u, s.a, s.b, s.c, s.d + t, s.e, s.f, s.g⟩

def block (s : Words) (bytes : Bytes) : Words :=
  let schedule := (extend 48 (wordsOf bytes).reverse).reverse
  let r := (schedule.zip roundConstants).foldl (fun r wk => round r wk.1 wk.2) s
  ⟨s.a + r.a, s.b + r.b, s.c + r.c, s.d + r.d, s.e + r.e, s.f + r.f, s.g + r.g, s.h + r.h⟩

/-- The words after `n` blocks of 64 bytes. -/
def blocks : (n : Nat) → Words → Bytes → Words
  | 0, s, _ => s
  | n + 1, s, bytes => blocks n (block s (bytes.take 64)) (bytes.drop 64)

/-- The digest of a message as lower-case hexadecimal digits. -/
def hex (message : Bytes) : Bytes :=
  let bytes := padded message
  let s := blocks (bytes.length / 64) Words.initial bytes
  [s.a, s.b, s.c, s.d, s.e, s.f, s.g, s.h].flatMap fun w => Bytes.hex w.toNat 8

end EggLang.Digest
