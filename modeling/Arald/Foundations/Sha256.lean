import Arald.Foundations.BitLists

/-!
# The secure hash SHA-256

The padding, the message schedule and the compression of FIPS 180-4, over messages of bits. The
constants are what the standard says of them: the first 32 bits of the fractional parts of roots
of the first primes.
-/

namespace Foundations

namespace Sha256

abbrev Word := BitVec 32

/-! ### The functions of the standard -/

def ch (x y z : Word) : Word := (x &&& y) ^^^ (~~~x &&& z)

def maj (x y z : Word) : Word := (x &&& y) ^^^ (x &&& z) ^^^ (y &&& z)

def bigSigma0 (x : Word) : Word := x.rotateRight 2 ^^^ x.rotateRight 13 ^^^ x.rotateRight 22

def bigSigma1 (x : Word) : Word := x.rotateRight 6 ^^^ x.rotateRight 11 ^^^ x.rotateRight 25

def smallSigma0 (x : Word) : Word := x.rotateRight 7 ^^^ x.rotateRight 18 ^^^ x >>> 3

def smallSigma1 (x : Word) : Word := x.rotateRight 17 ^^^ x.rotateRight 19 ^^^ x >>> 10

/-- The first 32 bits of the fractional part of the `n`-th root of `p`. -/
def rootFraction (n p : ℕ) : Word := BitVec.ofNat 32 (Nat.nthRoot n (p * 2 ^ (32 * n)))

def firstPrimes : List ℕ :=
  [2, 3, 5, 7, 11, 13, 17, 19, 23, 29, 31, 37, 41, 43, 47, 53, 59, 61, 67, 71, 73, 79, 83, 89, 97, 101, 103, 107, 109,
    113, 127, 131, 137, 139, 149, 151, 157, 163, 167, 173, 179, 181, 191, 193, 197, 199, 211, 223, 227, 229, 233, 239,
    241, 251, 257, 263, 269, 271, 277, 281, 283, 293, 307, 311]

/-- The constant word of each round. -/
def constants : List Word := firstPrimes.map (rootFraction 3)

/-! ### The working variables -/

@[ext] structure Registers (α : Type*) where
  a : α
  b : α
  c : α
  d : α
  e : α
  f : α
  g : α
  h : α
  deriving DecidableEq

namespace Registers

variable {α β : Type*}

def map (φ : α → β) (r : Registers α) : Registers β :=
  ⟨φ r.a, φ r.b, φ r.c, φ r.d, φ r.e, φ r.f, φ r.g, φ r.h⟩

def toList (r : Registers α) : List α := [r.a, r.b, r.c, r.d, r.e, r.f, r.g, r.h]

theorem map_toList (φ : α → β) (r : Registers α) : r.toList.map φ = (r.map φ).toList := rfl

end Registers

def initialHash : Registers Word :=
  ⟨rootFraction 2 2, rootFraction 2 3, rootFraction 2 5, rootFraction 2 7, rootFraction 2 11, rootFraction 2 13,
    rootFraction 2 17, rootFraction 2 19⟩

/-! ### Preprocessing -/

/-- The least number of zeros that leaves 64 bits of the last block for the length. -/
def zeroCount (length : ℕ) : ℕ := (959 - length % 512) % 512

def pad (message : List Bool) : List Bool :=
  message ++ (true :: List.replicate (zeroCount message.length) false ++ toBits 64 message.length)

/-- A word of a block. -/
def blockWord (block : List Bool) (t : ℕ) : Word := BitVec.ofNat 32 (ofBits (chunk 32 block t))

/-! ### The computation of the hash -/

/-- The message schedule of a block. -/
def schedule (block : List Bool) (t : ℕ) : Word :=
  if t < 16 then blockWord block t
  else smallSigma1 (schedule block (t - 2)) + schedule block (t - 7) + smallSigma0 (schedule block (t - 15)) +
    schedule block (t - 16)
termination_by t
decreasing_by all_goals omega

def round (r : Registers Word) (k w : Word) : Registers Word :=
  let t1 := r.h + bigSigma1 r.e + ch r.e r.f r.g + k + w
  let t2 := bigSigma0 r.a + maj r.a r.b r.c
  ⟨t1 + t2, r.a, r.b, r.c, r.d + t1, r.e, r.f, r.g⟩

/-- The working variables after the first rounds. -/
def rounds (hash : Registers Word) (block : List Bool) (n : ℕ) : Registers Word :=
  (List.range n).foldl (fun r t => round r (constants.getD t 0) (schedule block t)) hash

def sum (r s : Registers Word) : Registers Word :=
  ⟨r.a + s.a, r.b + s.b, r.c + s.c, r.d + s.d, r.e + s.e, r.f + s.f, r.g + s.g, r.h + s.h⟩

def compress (hash : Registers Word) (block : List Bool) : Registers Word := sum (rounds hash block 64) hash

/-- The hash value after the first blocks. -/
def hashBlocks (padded : List Bool) (n : ℕ) : Registers Word :=
  (List.range n).foldl (fun hash i => compress hash (chunk 512 padded i)) initialHash

/-- The 256 bits of the message digest. -/
def digest (message : List Bool) : List Bool :=
  (hashBlocks (pad message) ((pad message).length / 512)).toList.flatMap fun word => toBits 32 word.toNat

/-! ### Lengths -/

theorem length_pad (message : List Bool) :
    (pad message).length = message.length + 1 + zeroCount message.length + 64 := by
  rw [pad, List.length_append, List.length_append, List.length_cons, List.length_replicate, length_toBits]
  omega

/-- The zeros that the standard asks for: they complete a block, and no fewer do. -/
theorem zeroCount_spec (length : ℕ) : (length + 1 + zeroCount length) % 512 = 448 ∧ zeroCount length < 512 := by
  rw [zeroCount]
  omega

theorem length_digest (message : List Bool) : (digest message).length = 256 :=
  length_flatMap_of_length (fun _ => length_toBits _ _) _

end Sha256

end Foundations
