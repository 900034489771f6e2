import AdversarialCognition.Lib.Str

/-!
# SHA-256

`hashlib.sha256`, as FIPS 180-4 defines it, on lists of bytes. Results that speak of every hash
function take a `Runtime`; this is the one a CPython has, for runs on given inputs.

It is written to be compared with the standard line by line, and is not fast. Nothing is proved of
the compression. What a general result needs of a hash, such as that two given texts do not
collide, is a hypothesis of that result, and is discharged where the result is applied.
-/

namespace Py.Sha256

def roundConstants : List UInt32 := [
  0x428a2f98, 0x71374491, 0xb5c0fbcf, 0xe9b5dba5, 0x3956c25b, 0x59f111f1, 0x923f82a4, 0xab1c5ed5,
  0xd807aa98, 0x12835b01, 0x243185be, 0x550c7dc3, 0x72be5d74, 0x80deb1fe, 0x9bdc06a7, 0xc19bf174,
  0xe49b69c1, 0xefbe4786, 0x0fc19dc6, 0x240ca1cc, 0x2de92c6f, 0x4a7484aa, 0x5cb0a9dc, 0x76f988da,
  0x983e5152, 0xa831c66d, 0xb00327c8, 0xbf597fc7, 0xc6e00bf3, 0xd5a79147, 0x06ca6351, 0x14292967,
  0x27b70a85, 0x2e1b2138, 0x4d2c6dfc, 0x53380d13, 0x650a7354, 0x766a0abb, 0x81c2c92e, 0x92722c85,
  0xa2bfe8a1, 0xa81a664b, 0xc24b8b70, 0xc76c51a3, 0xd192e819, 0xd6990624, 0xf40e3585, 0x106aa070,
  0x19a4c116, 0x1e376c08, 0x2748774c, 0x34b0bcb5, 0x391c0cb3, 0x4ed8aa4a, 0x5b9cca4f, 0x682e6ff3,
  0x748f82ee, 0x78a5636f, 0x84c87814, 0x8cc70208, 0x90befffa, 0xa4506ceb, 0xbef9a3f7, 0xc67178f2]

def rotr (x : UInt32) (n : UInt32) : UInt32 := (x >>> n) ||| (x <<< (32 - n))

structure Registers where
  a : UInt32
  b : UInt32
  c : UInt32
  d : UInt32
  e : UInt32
  f : UInt32
  g : UInt32
  h : UInt32

def initial : Registers where
  a := 0x6a09e667
  b := 0xbb67ae85
  c := 0x3c6ef372
  d := 0xa54ff53a
  e := 0x510e527f
  f := 0x9b05688c
  g := 0x1f83d9ab
  h := 0x5be0cd19

/-- One round, with its constant and its word of the schedule. -/
def round (r : Registers) (kw : UInt32 × UInt32) : Registers :=
  let s1 := rotr r.e 6 ^^^ rotr r.e 11 ^^^ rotr r.e 25
  let ch := (r.e &&& r.f) ^^^ (~~~ r.e &&& r.g)
  let t1 := r.h + s1 + ch + kw.1 + kw.2
  let s0 := rotr r.a 2 ^^^ rotr r.a 13 ^^^ rotr r.a 22
  let maj := (r.a &&& r.b) ^^^ (r.a &&& r.c) ^^^ (r.b &&& r.c)
  { a := t1 + (s0 + maj), b := r.a, c := r.b, d := r.c,
    e := r.d + t1, f := r.e, g := r.f, h := r.g }

/-- `n` further words of the schedule; `w` holds the words so far, last one first. -/
def extend : ℕ → List UInt32 → List UInt32
  | 0, w => w
  | n + 1, w =>
      let x := w.getD 14 0
      let y := w.getD 1 0
      let s0 := rotr x 7 ^^^ rotr x 18 ^^^ (x >>> 3)
      let s1 := rotr y 17 ^^^ rotr y 19 ^^^ (y >>> 10)
      extend n ((w.getD 15 0 + s0 + w.getD 6 0 + s1) :: w)

def word (bytes : List UInt8) : UInt32 :=
  bytes.foldl (fun acc b => (acc <<< 8) ||| b.toUInt32) 0

/-- `l` in pieces of `size`, as many as `count`. -/
def pieces {α : Type*} (size count : ℕ) (l : List α) : List (List α) :=
  (List.range count).map fun i => (l.drop (size * i)).take size

/-- One block: its schedule, the sixty-four rounds, and the sum with what was there before. -/
def compress (r : Registers) (block : List UInt8) : Registers :=
  let w := (extend 48 ((pieces 4 16 block).map word).reverse).reverse
  let s := (roundConstants.zip w).foldl round r
  { a := r.a + s.a, b := r.b + s.b, c := r.c + s.c, d := r.d + s.d,
    e := r.e + s.e, f := r.f + s.f, g := r.g + s.g, h := r.h + s.h }

def bigEndian (width n : ℕ) : List UInt8 :=
  (List.range width).map fun i => UInt8.ofNat (n >>> (8 * (width - 1 - i)))

/-- The message, one bit, as many zeros as it takes, and the length in bits. -/
def pad (message : List UInt8) : List UInt8 :=
  let n := message.length
  message ++ [0x80] ++ List.replicate ((119 - n % 64) % 64) 0 ++ bigEndian 8 (8 * n)

/-- `hashlib.sha256(message).digest()` -/
def digest (message : List UInt8) : List UInt8 :=
  let padded := pad message
  let r := (pieces 64 (padded.length / 64) padded).foldl compress initial
  [r.a, r.b, r.c, r.d, r.e, r.f, r.g, r.h].flatMap fun x => bigEndian 4 x.toNat

end Py.Sha256

namespace Py

/-- A CPython, on strings whose characters past 127 are not printed. -/
@[reducible] def cpython : Runtime where
  sha256 := Sha256.digest
  isprintable c := decide (0x20 ≤ c.val ∧ c.val < 0x7F)
  isprintable_surrogate h := by
    have := h.1
    simp only [decide_eq_false_iff_not, not_and, not_lt]
    omega

end Py
