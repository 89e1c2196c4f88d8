import CantonSigner.Lib.Bytes

/-!
# SHA-256

The FIPS 180-4 hash as a function on byte strings, over natural numbers below
`2 ^ 32`. The model of the device takes its hash as a parameter; this is the
function the device really computes, and the concrete devices of the
development use it.

- `sha256`: the digest; `length_sha256`: it is 32 bytes long.
-/

namespace Sha256

open ByteCodec

/-- The round constants (FIPS 180-4, §4.2.2). -/
def roundConstants : List Nat := [
  0x428a2f98, 0x71374491, 0xb5c0fbcf, 0xe9b5dba5, 0x3956c25b, 0x59f111f1, 0x923f82a4, 0xab1c5ed5,
  0xd807aa98, 0x12835b01, 0x243185be, 0x550c7dc3, 0x72be5d74, 0x80deb1fe, 0x9bdc06a7, 0xc19bf174,
  0xe49b69c1, 0xefbe4786, 0x0fc19dc6, 0x240ca1cc, 0x2de92c6f, 0x4a7484aa, 0x5cb0a9dc, 0x76f988da,
  0x983e5152, 0xa831c66d, 0xb00327c8, 0xbf597fc7, 0xc6e00bf3, 0xd5a79147, 0x06ca6351, 0x14292967,
  0x27b70a85, 0x2e1b2138, 0x4d2c6dfc, 0x53380d13, 0x650a7354, 0x766a0abb, 0x81c2c92e, 0x92722c85,
  0xa2bfe8a1, 0xa81a664b, 0xc24b8b70, 0xc76c51a3, 0xd192e819, 0xd6990624, 0xf40e3585, 0x106aa070,
  0x19a4c116, 0x1e376c08, 0x2748774c, 0x34b0bcb5, 0x391c0cb3, 0x4ed8aa4a, 0x5b9cca4f, 0x682e6ff3,
  0x748f82ee, 0x78a5636f, 0x84c87814, 0x8cc70208, 0x90befffa, 0xa4506ceb, 0xbef9a3f7, 0xc67178f2]

/-- Reduction to a 32-bit word. -/
def word (x : Nat) : Nat := x % 4294967296

/-- Rotation of a 32-bit word to the right. -/
def rotr (n x : Nat) : Nat := (x >>> n) ||| word (x <<< (32 - n))

/-- `Ch` (FIPS 180-4, §4.1.2). -/
def choose (x y z : Nat) : Nat := (x &&& y) ^^^ ((x ^^^ 0xffffffff) &&& z)

/-- `Maj`. -/
def majority (x y z : Nat) : Nat := (x &&& y) ^^^ (x &&& z) ^^^ (y &&& z)

/-- `Σ₀`. -/
def bigSigma0 (x : Nat) : Nat := rotr 2 x ^^^ rotr 13 x ^^^ rotr 22 x

/-- `Σ₁`. -/
def bigSigma1 (x : Nat) : Nat := rotr 6 x ^^^ rotr 11 x ^^^ rotr 25 x

/-- `σ₀`. -/
def smallSigma0 (x : Nat) : Nat := rotr 7 x ^^^ rotr 18 x ^^^ (x >>> 3)

/-- `σ₁`. -/
def smallSigma1 (x : Nat) : Nat := rotr 17 x ^^^ rotr 19 x ^^^ (x >>> 10)

/-- The eight working variables. -/
structure Vars where
  a : Nat
  b : Nat
  c : Nat
  d : Nat
  e : Nat
  f : Nat
  g : Nat
  h : Nat

/-- One round. -/
def round (v : Vars) (k w : Nat) : Vars :=
  let t1 := word (v.h + bigSigma1 v.e + choose v.e v.f v.g + k + w)
  let t2 := word (bigSigma0 v.a + majority v.a v.b v.c)
  { a := word (t1 + t2), b := v.a, c := v.b, d := v.c,
    e := word (v.d + t1), f := v.e, g := v.f, h := v.g }

/-- The 64 rounds, over a sliding window of 16 schedule words. -/
def rounds : List Nat → List Nat → Vars → Vars
  | [], _, v => v
  | _ :: _, [], v => v
  | k :: ks, w :: ws, v =>
    let next := word (smallSigma1 (ws.getD 13 0) + ws.getD 8 0 + smallSigma0 (ws.getD 0 0) + w)
    rounds ks (ws ++ [next]) (round v k w)

/-- Word-wise sum. -/
def Vars.add (x y : Vars) : Vars :=
  { a := word (x.a + y.a), b := word (x.b + y.b), c := word (x.c + y.c), d := word (x.d + y.d),
    e := word (x.e + y.e), f := word (x.f + y.f), g := word (x.g + y.g), h := word (x.h + y.h) }

/-- The initial hash value. -/
def initial : Vars :=
  ⟨0x6a09e667, 0xbb67ae85, 0x3c6ef372, 0xa54ff53a, 0x510e527f, 0x9b05688c, 0x1f83d9ab, 0x5be0cd19⟩

/-- Big-endian 32-bit words of a byte string. -/
def words : Bytes → List Nat
  | a :: b :: c :: d :: rest =>
    (((a.toNat * 256 + b.toNat) * 256 + c.toNat) * 256 + d.toNat) :: words rest
  | _ => []

/-- Padding to a multiple of 64 bytes. -/
def pad (m : Bytes) : Bytes :=
  m ++ [0x80] ++ List.replicate ((119 - m.length % 64) % 64) 0 ++ beBytes 8 (m.length * 8)

/-- The block loop. -/
def blocks : Nat → List Nat → Vars → Vars
  | 0, _, v => v
  | n + 1, ws, v => blocks n (ws.drop 16) (v.add (rounds roundConstants (ws.take 16) v))

/-- The SHA-256 digest of a byte string. -/
def sha256 (m : Bytes) : Bytes :=
  let p := pad m
  let v := blocks (p.length / 64) (words p) initial
  beBytes 4 v.a ++ beBytes 4 v.b ++ beBytes 4 v.c ++ beBytes 4 v.d ++
    beBytes 4 v.e ++ beBytes 4 v.f ++ beBytes 4 v.g ++ beBytes 4 v.h

@[simp] theorem length_sha256 (m : Bytes) : (sha256 m).length = 32 := by
  simp [sha256]

set_option maxRecDepth 8192 in
example : (sha256 (str "abc")).take 8 =
    [0xba, 0x78, 0x16, 0xbf, 0x8f, 0x01, 0xcf, 0xea] := by decide +kernel

end Sha256
