import SglangRs.Wire.Text

/-!
# The hash function SHA-256

The function of the crate `sha2` that identifies spans, for closed statements about the executor.
The message is padded to blocks of 64 bytes, and every block is folded into eight words. Nothing
here depends on what is hashed, and no proof depends on the values.

## Main definitions

* `Sha.sha256`: the digest of a message, as bytes.
-/

namespace SglangRs

namespace Sha

/-- The fractional parts of the cube roots of the first 64 primes. -/
def roundConstants : List UInt32 :=
  [0x428a2f98, 0x71374491, 0xb5c0fbcf, 0xe9b5dba5, 0x3956c25b, 0x59f111f1, 0x923f82a4, 0xab1c5ed5,
    0xd807aa98, 0x12835b01, 0x243185be, 0x550c7dc3, 0x72be5d74, 0x80deb1fe, 0x9bdc06a7, 0xc19bf174,
    0xe49b69c1, 0xefbe4786, 0x0fc19dc6, 0x240ca1cc, 0x2de92c6f, 0x4a7484aa, 0x5cb0a9dc, 0x76f988da,
    0x983e5152, 0xa831c66d, 0xb00327c8, 0xbf597fc7, 0xc6e00bf3, 0xd5a79147, 0x06ca6351, 0x14292967,
    0x27b70a85, 0x2e1b2138, 0x4d2c6dfc, 0x53380d13, 0x650a7354, 0x766a0abb, 0x81c2c92e, 0x92722c85,
    0xa2bfe8a1, 0xa81a664b, 0xc24b8b70, 0xc76c51a3, 0xd192e819, 0xd6990624, 0xf40e3585, 0x106aa070,
    0x19a4c116, 0x1e376c08, 0x2748774c, 0x34b0bcb5, 0x391c0cb3, 0x4ed8aa4a, 0x5b9cca4f, 0x682e6ff3,
    0x748f82ee, 0x78a5636f, 0x84c87814, 0x8cc70208, 0x90befffa, 0xa4506ceb, 0xbef9a3f7, 0xc67178f2]

/-- The fractional parts of the square roots of the first eight primes. -/
def initialWords : List UInt32 :=
  [0x6a09e667, 0xbb67ae85, 0x3c6ef372, 0xa54ff53a, 0x510e527f, 0x9b05688c, 0x1f83d9ab, 0x5be0cd19]

def rotr (n : UInt32) (x : UInt32) : UInt32 := (x >>> n) ||| (x <<< (32 - n))

/-- The message with the bit 1, zeros up to a multiple of 64 bytes, and its length in bits. -/
def pad (message : Bytes) : Bytes :=
  message ++ [0x80] ++ List.replicate ((119 - message.length % 64) % 64) 0
    ++ (natToLe 8 (message.length * 8)).reverse

/-- The words of a message, most significant byte first. -/
def words : Bytes → List UInt32
  | a :: b :: c :: d :: rest => UInt32.ofNat (leToNat [d, c, b, a]) :: words rest
  | _ => []

/-- The next word of the schedule, from the words so far, the latest first. -/
def nextWord (schedule : List UInt32) : UInt32 :=
  let w (i : ℕ) := schedule.getD i 0
  let s0 := rotr 7 (w 14) ^^^ rotr 18 (w 14) ^^^ (w 14 >>> 3)
  let s1 := rotr 17 (w 1) ^^^ rotr 19 (w 1) ^^^ (w 1 >>> 10)
  w 15 + s0 + w 6 + s1

def extend : ℕ → List UInt32 → List UInt32
  | 0, schedule => schedule
  | n + 1, schedule => extend n (nextWord schedule :: schedule)

/-- One round. -/
def round (state : List UInt32) (constant word : UInt32) : List UInt32 :=
  match state with
  | [a, b, c, d, e, f, g, h] =>
      let s1 := rotr 6 e ^^^ rotr 11 e ^^^ rotr 25 e
      let ch := (e &&& f) ^^^ ((~~~ e) &&& g)
      let t1 := h + s1 + ch + constant + word
      let s0 := rotr 2 a ^^^ rotr 13 a ^^^ rotr 22 a
      let maj := (a &&& b) ^^^ (a &&& c) ^^^ (b &&& c)
      [t1 + (s0 + maj), a, b, c, d + t1, e, f, g]
  | _ => state

/-- Fold a block of sixteen words into the state. -/
def compress (state block : List UInt32) : List UInt32 :=
  let schedule := (extend 48 block.reverse).reverse
  let final := (roundConstants.zip schedule).foldl (fun s kw => round s kw.1 kw.2) state
  List.zipWith (· + ·) state final

/-- The blocks of a list of words, at most `n` of them. -/
def blocks : ℕ → List UInt32 → List (List UInt32)
  | 0, _ => []
  | n + 1, ws => ws.take 16 :: blocks n (ws.drop 16)

def sha256 (message : Bytes) : Bytes :=
  let ws := words (pad message)
  let final := (blocks (ws.length / 16) ws).foldl compress initialWords
  final.flatMap fun word => (natToLe 4 word.toNat).reverse

example : sha256 [0x61, 0x62, 0x63] =
    [0xba, 0x78, 0x16, 0xbf, 0x8f, 0x01, 0xcf, 0xea, 0x41, 0x41, 0x40, 0xde, 0x5d, 0xae, 0x22, 0x23,
      0xb0, 0x03, 0x61, 0xa3, 0x96, 0x17, 0x7a, 0x9c, 0xb4, 0x10, 0xff, 0x61, 0xf2, 0x00, 0x15,
      0xad] := by
  decide +kernel

end Sha

end SglangRs
