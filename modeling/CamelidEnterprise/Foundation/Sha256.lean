/-!
# SHA-256

The digest of a byte string, computed on natural numbers so that the kernel can
evaluate it on a short text. The model takes the hash of the source as a parameter;
this is the concrete function its sample runs give for it: `digest`, and `hexDigest`,
its hexadecimal text.
-/

namespace Foundation.Sha256

/-- A sum of words, without its carry. -/
def add (a b : Nat) : Nat := (a + b) % 4294967296

/-- `ROTR` -/
def rotr (n x : Nat) : Nat := x >>> n ||| x <<< (32 - n) % 4294967296

/-- The round constants. -/
def roundConstants : List Nat :=
  [0x428a2f98, 0x71374491, 0xb5c0fbcf, 0xe9b5dba5, 0x3956c25b, 0x59f111f1, 0x923f82a4, 0xab1c5ed5,
   0xd807aa98, 0x12835b01, 0x243185be, 0x550c7dc3, 0x72be5d74, 0x80deb1fe, 0x9bdc06a7, 0xc19bf174,
   0xe49b69c1, 0xefbe4786, 0x0fc19dc6, 0x240ca1cc, 0x2de92c6f, 0x4a7484aa, 0x5cb0a9dc, 0x76f988da,
   0x983e5152, 0xa831c66d, 0xb00327c8, 0xbf597fc7, 0xc6e00bf3, 0xd5a79147, 0x06ca6351, 0x14292967,
   0x27b70a85, 0x2e1b2138, 0x4d2c6dfc, 0x53380d13, 0x650a7354, 0x766a0abb, 0x81c2c92e, 0x92722c85,
   0xa2bfe8a1, 0xa81a664b, 0xc24b8b70, 0xc76c51a3, 0xd192e819, 0xd6990624, 0xf40e3585, 0x106aa070,
   0x19a4c116, 0x1e376c08, 0x2748774c, 0x34b0bcb5, 0x391c0cb3, 0x4ed8aa4a, 0x5b9cca4f, 0x682e6ff3,
   0x748f82ee, 0x78a5636f, 0x84c87814, 0x8cc70208, 0x90befffa, 0xa4506ceb, 0xbef9a3f7, 0xc67178f2]

/-- The working variables. -/
structure Words where
  a : Nat
  b : Nat
  c : Nat
  d : Nat
  e : Nat
  f : Nat
  g : Nat
  h : Nat

def Words.initial : Words :=
  ⟨0x6a09e667, 0xbb67ae85, 0x3c6ef372, 0xa54ff53a, 0x510e527f, 0x9b05688c, 0x1f83d9ab, 0x5be0cd19⟩

def Words.toList (s : Words) : List Nat := [s.a, s.b, s.c, s.d, s.e, s.f, s.g, s.h]

def bigSigma0 (x : Nat) : Nat := rotr 2 x ^^^ rotr 13 x ^^^ rotr 22 x
def bigSigma1 (x : Nat) : Nat := rotr 6 x ^^^ rotr 11 x ^^^ rotr 25 x
def smallSigma0 (x : Nat) : Nat := rotr 7 x ^^^ rotr 18 x ^^^ x >>> 3
def smallSigma1 (x : Nat) : Nat := rotr 17 x ^^^ rotr 19 x ^^^ x >>> 10

/-- One round, with its constant and its word of the schedule already added. -/
def Words.round (s : Words) (kw : Nat) : Words :=
  let choice := s.e &&& s.f ^^^ (4294967295 - s.e) &&& s.g
  let majority := s.a &&& s.b ^^^ s.a &&& s.c ^^^ s.b &&& s.c
  let t := s.h + bigSigma1 s.e + choice + kw
  ⟨add t (bigSigma0 s.a + majority), s.a, s.b, s.c, add s.d t, s.e, s.f, s.g⟩

/-- The rounds. The schedule is the window of the sixteen words that come next. -/
def rounds : List Nat → List Nat → Words → Words
  | k :: constants, w :: window, s =>
    let next := add (smallSigma1 (window.getD 13 0) + window.getD 8 0)
      (smallSigma0 (window.getD 0 0) + w)
    rounds constants (window ++ [next]) (s.round (k + w))
  | _, _, s => s

def compress (s : Words) (block : List Nat) : Words :=
  let t := rounds roundConstants block s
  ⟨add s.a t.a, add s.b t.b, add s.c t.c, add s.d t.d, add s.e t.e, add s.f t.f, add s.g t.g,
    add s.h t.h⟩

/-- Words of four bytes, the highest first. -/
def ofBytes : List UInt8 → List Nat
  | a :: b :: c :: d :: rest =>
    (a.toNat <<< 24 ||| b.toNat <<< 16 ||| c.toNat <<< 8 ||| d.toNat) :: ofBytes rest
  | _ => []

/-- The lowest `count` bytes of a number, the highest first. -/
def toBytes : Nat → Nat → List UInt8
  | 0, _ => []
  | count + 1, n => toBytes count (n / 256) ++ [UInt8.ofNat n]

/-- A message with its end marked, in whole blocks of 64 bytes, and its length in bits. -/
def pad (message : List UInt8) : List UInt8 :=
  message ++ 0x80 :: List.replicate ((119 - message.length % 64) % 64) 0 ++
    toBytes 8 (8 * message.length)

/-- The blocks of a padded message, one after the other. -/
def blocks : Nat → List Nat → Words → Words
  | 0, _, s => s
  | count + 1, words, s => blocks count (words.drop 16) (compress s (words.take 16))

def digest (message : List UInt8) : List UInt8 :=
  let words := ofBytes (pad message)
  (blocks (words.length / 16) words .initial).toList.flatMap (toBytes 4)

/-- `format!("{byte:02x}")` for each byte of the digest. -/
def hexDigest (message : List UInt8) : List Char :=
  (digest message).flatMap fun byte =>
    [Nat.digitChar (byte.toNat / 16), Nat.digitChar (byte.toNat % 16)]

example : String.ofList (hexDigest [0x61, 0x62, 0x63]) =
    "ba7816bf8f01cfea414140de5dae2223b00361a396177a9cb410ff61f20015ad" := by
  decide +kernel

end Foundation.Sha256
