import Arald.Foundations.JsBits
import Arald.Foundations.Sha256
import Arald.Content.Buffers

/-!
# Digests on the phone

The hash function that the page's identity module computes itself, and that it is SHA-256.
-/

namespace Arald

open Foundations Foundations.Sha256

/-! ### The code -/

def sha256K : List ℤ :=
  [0x428a2f98, 0x71374491, 0xb5c0fbcf, 0xe9b5dba5, 0x3956c25b, 0x59f111f1, 0x923f82a4, 0xab1c5ed5,
    0xd807aa98, 0x12835b01, 0x243185be, 0x550c7dc3, 0x72be5d74, 0x80deb1fe, 0x9bdc06a7, 0xc19bf174,
    0xe49b69c1, 0xefbe4786, 0x0fc19dc6, 0x240ca1cc, 0x2de92c6f, 0x4a7484aa, 0x5cb0a9dc, 0x76f988da,
    0x983e5152, 0xa831c66d, 0xb00327c8, 0xbf597fc7, 0xc6e00bf3, 0xd5a79147, 0x06ca6351, 0x14292967,
    0x27b70a85, 0x2e1b2138, 0x4d2c6dfc, 0x53380d13, 0x650a7354, 0x766a0abb, 0x81c2c92e, 0x92722c85,
    0xa2bfe8a1, 0xa81a664b, 0xc24b8b70, 0xc76c51a3, 0xd192e819, 0xd6990624, 0xf40e3585, 0x106aa070,
    0x19a4c116, 0x1e376c08, 0x2748774c, 0x34b0bcb5, 0x391c0cb3, 0x4ed8aa4a, 0x5b9cca4f, 0x682e6ff3,
    0x748f82ee, 0x78a5636f, 0x84c87814, 0x8cc70208, 0x90befffa, 0xa4506ceb, 0xbef9a3f7, 0xc67178f2]

def sha256RotR (x : ℤ) (n : ℕ) : ℤ := jsOr (jsShr x n) (jsShl x (32 - n))

/-- `view.setUint32(offset, value)`, within the buffer. -/
def setUint32 (buffer : Buffer) (offset : ℕ) (value : ℤ) : Buffer :=
  buffer.take offset ++ (uint32Bytes (jsShr value 0).toNat ++ buffer.drop (offset + 4))

/-- The padded bytes: the length is left out of the upper half of its field. -/
def sha256Padded (bytes : Buffer) : Buffer :=
  let bitLen : ℤ := bytes.length * 8
  let paddedLen := (bytes.length + 9 + 63) / 64 * 64
  let padded : Buffer := bytes ++ List.replicate (paddedLen - bytes.length) 0
  setUint32 (padded.set bytes.length 0x80) (paddedLen - 4) (jsShr bitLen 0)

/-- `w[i] = view.getUint32(chunkStart + i * 4)` for the first sixteen words. -/
def readWords (padded : Buffer) (chunkStart : ℕ) (w : List ℤ) : Except Fault (List ℤ) :=
  (List.range 16).foldlM (fun w i => do
    let word ← getUint32 padded (chunkStart + i * 4)
    return w.set i word) w

def extendWord (w : List ℤ) (i : ℕ) : List ℤ :=
  let w15 := w.getD (i - 15) 0
  let w2 := w.getD (i - 2) 0
  let s0 := jsXor (jsXor (sha256RotR w15 7) (sha256RotR w15 18)) (jsShr w15 3)
  let s1 := jsXor (jsXor (sha256RotR w2 17) (sha256RotR w2 19)) (jsShr w2 10)
  w.set i (toUint32 (toInt32 (w.getD (i - 16) 0 + s0 + w.getD (i - 7) 0 + s1)))

def extendWords (w : List ℤ) : List ℤ := (List.range' 16 48).foldl extendWord w

def sha256Round (w : List ℤ) (r : Registers ℤ) (i : ℕ) : Registers ℤ :=
  let s1 := jsXor (jsXor (sha256RotR r.e 6) (sha256RotR r.e 11)) (sha256RotR r.e 25)
  let ch := jsXor (jsAnd r.e r.f) (jsAnd (jsNot r.e) r.g)
  let temp1 := toInt32 (r.h + s1 + ch + sha256K.getD i 0 + w.getD i 0)
  let s0 := jsXor (jsXor (sha256RotR r.a 2) (sha256RotR r.a 13)) (sha256RotR r.a 22)
  let maj := jsXor (jsXor (jsAnd r.a r.b) (jsAnd r.a r.c)) (jsAnd r.b r.c)
  let temp2 := toInt32 (s0 + maj)
  ⟨toInt32 (temp1 + temp2), r.a, r.b, r.c, toInt32 (r.d + temp1), r.e, r.f, r.g⟩

def sha256Rounds (w : List ℤ) (hash : Registers ℤ) : Registers ℤ := (List.range 64).foldl (sha256Round w) hash

def addHash (hash r : Registers ℤ) : Registers ℤ :=
  ⟨toInt32 (hash.a + r.a), toInt32 (hash.b + r.b), toInt32 (hash.c + r.c), toInt32 (hash.d + r.d),
    toInt32 (hash.e + r.e), toInt32 (hash.f + r.f), toInt32 (hash.g + r.g), toInt32 (hash.h + r.h)⟩

/-- One round of the loop over the blocks. The array of words is one for all of them. -/
def sha256Chunk (padded : Buffer) (state : Registers ℤ × List ℤ) (i : ℕ) : Except Fault (Registers ℤ × List ℤ) := do
  let w ← readWords padded (i * 64) state.2
  let w := extendWords w
  return (addHash state.1 (sha256Rounds w state.1), w)

def sha256Start : Registers ℤ :=
  ⟨0x6a09e667, 0xbb67ae85, 0x3c6ef372, 0xa54ff53a, 0x510e527f, 0x9b05688c, 0x1f83d9ab, 0x5be0cd19⟩

def sha256 (bytes : Buffer) : Except Fault Buffer := do
  let padded := sha256Padded bytes
  let (hash, _) ← (List.range (padded.length / 64)).foldlM (sha256Chunk padded) (sha256Start, List.replicate 64 0)
  return (List.range 8).foldl (fun out i => setUint32 out (i * 4) (jsShr (hash.toList.getD i 0) 0)) (List.replicate 32 0)

/-! ### Bytes as bits -/

def byteBits (bytes : Buffer) : List Bool := bytes.flatMap fun byte => toBits 8 byte.toNat

section
variable {bytes padded block : Buffer} {w : List ℤ} {i n offset : ℕ}

theorem byteBits_append (bytes rest : Buffer) : byteBits (bytes ++ rest) = byteBits bytes ++ byteBits rest :=
  List.flatMap_append

theorem length_byteBits (bytes : Buffer) : (byteBits bytes).length = 8 * bytes.length :=
  length_flatMap_of_length (fun _ => length_toBits _ _) bytes

theorem chunk_byteBits (bytes : Buffer) (size i : ℕ) :
    chunk (8 * size) (byteBits bytes) i = byteBits (chunk size bytes i) :=
  chunk_flatMap_mul (fun _ => length_toBits _ _) bytes size i

theorem byteBits_uint32Bytes (n : ℕ) : byteBits (uint32Bytes n) = toBits 32 n := by
  have hbyte : ∀ v, toBits 8 (UInt8.ofNat v).toNat = toBits 8 v := by
    intro v
    rw [UInt8.toNat_ofNat']
    exact toBits_mod 8 v
  rw [toBits_add 8 24, toBits_add 8 16, toBits_add 8 8, ← hbyte, ← hbyte (n / _), ← hbyte (n / 2 ^ 8), ← hbyte n]
  rfl

/-- A word that is read is the one that its bits spell. -/
theorem getUint32_eq_ofBits (h : offset + 4 ≤ bytes.length) :
    getUint32 bytes offset = .ok (ofBits (byteBits ((bytes.drop offset).take 4))) := by
  have hlength : 4 ≤ (bytes.drop offset).length := by
    rw [List.length_drop]
    omega
  rw [getUint32, readUInt32BE]
  generalize bytes.drop offset = left at hlength ⊢
  rcases left with _ | ⟨a, _ | ⟨b, _ | ⟨c, _ | ⟨d, rest⟩⟩⟩⟩
  case cons.cons.cons.cons =>
    have ha := a.toNat_lt
    have hb := b.toNat_lt
    have hc := c.toNat_lt
    have hd := d.toNat_lt
    have hbits : byteBits ((a :: b :: c :: d :: rest).take 4) =
        toBits 8 a.toNat ++ (toBits 8 b.toNat ++ (toBits 8 c.toNat ++ (toBits 8 d.toNat ++ []))) := rfl
    rw [hbits]
    simp only [ofBits_append, ofBits_toBits, List.length_append, length_toBits, ofBits_nil, List.length_nil, Except.ok.injEq]
    omega
  all_goals simp at hlength

/-- The words of a block of the padded bytes. -/
theorem getUint32_blockWord (hi : (i + 1) * 64 ≤ padded.length) {t : ℕ} (ht : t < 16) :
    ∃ word, getUint32 padded (i * 64 + t * 4) = .ok word ∧
      toWord word = blockWord (chunk 512 (byteBits padded) i) t := by
  have hchunk : chunk 4 (chunk 64 padded i) t = (padded.drop (i * 64 + t * 4)).take 4 := by
    rw [chunk, chunk, List.drop_take, List.drop_drop, List.take_take, Nat.min_eq_left (by omega)]
  refine ⟨_, getUint32_eq_ofBits (by omega), ?_⟩
  rw [toWord_natCast, blockWord, show 512 = 8 * 64 from rfl, chunk_byteBits, show 32 = 8 * 4 from rfl, chunk_byteBits,
    hchunk]

/-! ### The padding -/

theorem sha256Padded_eq (bytes : Buffer) :
    sha256Padded bytes = bytes ++ (0x80 :: List.replicate ((bytes.length + 9 + 63) / 64 * 64 - bytes.length - 5) 0) ++
      uint32Bytes (toWord (bytes.length * 8 : ℕ)).toNat := by
  obtain ⟨k, hk⟩ : ∃ k, (bytes.length + 9 + 63) / 64 * 64 = bytes.length + (k + 5) :=
    ⟨(bytes.length + 9 + 63) / 64 * 64 - bytes.length - 5, by omega⟩
  have hset : (bytes ++ List.replicate (k + 5) 0).set bytes.length 0x80 = bytes ++ 0x80 :: List.replicate (k + 4) 0 := by
    rw [List.set_append_right _ _ (Nat.le_refl _), Nat.sub_self]
    rfl
  have hlength : (bytes ++ 0x80 :: List.replicate k (0 : UInt8)).length = bytes.length + (k + 1) := by
    rw [List.length_append, List.length_cons, List.length_replicate]
  have hsplit : bytes ++ 0x80 :: List.replicate (k + 4) 0 =
      (bytes ++ 0x80 :: List.replicate k 0) ++ List.replicate 4 (0 : UInt8) := by
    rw [List.append_assoc, List.cons_append, List.replicate_append_replicate]
  have hstart : bytes.length + (k + 5) - 4 = (bytes ++ 0x80 :: List.replicate k (0 : UInt8)).length := by
    rw [hlength]
    omega
  have hvalue : (jsShr (jsShr ((bytes.length : ℤ) * 8) 0) 0).toNat = (toWord (bytes.length * 8 : ℕ)).toNat := by
    rw [jsShr_zero, jsShr_zero, toWord_toNat, Nat.cast_mul]
    rfl
  rw [sha256Padded, setUint32]
  simp only [hk, Nat.add_sub_cancel_left, Nat.add_sub_cancel]
  rw [hset, hsplit, hstart, List.take_left, List.drop_length_add_append, hvalue]
  rw [show List.drop 4 (List.replicate 4 (0 : UInt8)) = [] from rfl, List.append_nil]

theorem length_sha256Padded (bytes : Buffer) : (sha256Padded bytes).length = (bytes.length + 9 + 63) / 64 * 64 := by
  rw [sha256Padded_eq, List.length_append, List.length_append, List.length_cons, List.length_replicate]
  change _ + 4 = _
  omega

/-- The bytes are padded as the standard says, as long as the length fits half of its field. -/
theorem byteBits_sha256Padded (hbytes : bytes.length < 2 ^ 29) :
    byteBits (sha256Padded bytes) = pad (byteBits bytes) := by
  have hlength : (toWord (bytes.length * 8 : ℕ)).toNat = 8 * bytes.length := by
    rw [toWord_natCast, BitVec.toNat_ofNat]
    omega
  have hzeros : ∀ k, byteBits (List.replicate k 0) = List.replicate (8 * k) false := by
    intro k
    induction k with
    | zero => rfl
    | succ k ih =>
      rw [List.replicate_succ', byteBits_append, ih, Nat.mul_succ, List.replicate_add]
      rfl
  have hfield : toBits 64 (8 * bytes.length) = List.replicate 32 false ++ toBits 32 (8 * bytes.length) := by
    rw [toBits_add 32 32, Nat.div_eq_of_lt (by omega), toBits_zero]
  have hcount : 7 + 8 * ((bytes.length + 9 + 63) / 64 * 64 - bytes.length - 5) = zeroCount (8 * bytes.length) + 32 := by
    rw [zeroCount]
    omega
  have hmark : ∀ rest, byteBits (0x80 :: rest) = true :: (List.replicate 7 false ++ byteBits rest) := fun _ => rfl
  rw [sha256Padded_eq, byteBits_append, byteBits_append, hmark, hzeros, byteBits_uint32Bytes, hlength,
    List.replicate_append_replicate, hcount, pad, length_byteBits, hfield, List.append_assoc, List.cons_append,
    List.cons_append, List.replicate_add, List.append_assoc]

end

/-! ### The words of a block -/

/-- The first words of the array are those of the schedule. -/
def Scheduled (block : List Bool) (n : ℕ) (w : List ℤ) : Prop :=
  w.length = 64 ∧ ∀ t < n, toWord (w.getD t 0) = schedule block t

section
variable {padded : Buffer} {block : List Bool} {w : List ℤ} {r : Registers ℤ} {i n : ℕ}

/-- The next word is written. -/
theorem Scheduled.set (h : Scheduled block n w) (hn : n < 64) {v : ℤ} (hv : toWord v = schedule block n) :
    Scheduled block (n + 1) (w.set n v) := by
  refine ⟨(List.length_set ..).trans h.1, fun t ht => ?_⟩
  rw [List.getD_eq_getElem?_getD, List.getElem?_set]
  by_cases heq : n = t
  · subst heq
    rw [if_pos rfl, if_pos (h.1.symm ▸ hn)]
    exact hv
  · rw [if_neg heq, ← List.getD_eq_getElem?_getD]
    exact h.2 t (by omega)

theorem ensures_readWords (hi : (i + 1) * 64 ≤ padded.length) (hw : w.length = 64) :
    Ensures (fun _ => False) (Scheduled (chunk 512 (byteBits padded) i) 16) (readWords padded (i * 64) w) := by
  refine Ensures.foldlM_range (Scheduled (chunk 512 (byteBits padded) i)) ⟨hw, fun t ht => absurd ht t.not_lt_zero⟩ ?_
  intro t w ht hsched
  obtain ⟨word, hread, hword⟩ := getUint32_blockWord hi ht
  rw [hread]
  apply hsched.set (by omega)
  rw [hword, schedule, if_pos ht]

theorem toWord_sha256RotR (x : ℤ) (hn : n < 32) (hpos : 0 < n) : toWord (sha256RotR x n) = (toWord x).rotateRight n := by
  rw [sha256RotR, toWord_jsOr, toWord_jsShr, toWord_jsShl, BitVec.rotateRight_def, Nat.mod_eq_of_lt hn,
    Nat.mod_eq_of_lt (by omega)]

theorem Scheduled.extend (h : Scheduled block n w) (hlow : 16 ≤ n) (hn : n < 64) :
    Scheduled block (n + 1) (extendWord w n) := by
  apply h.set hn
  simp (disch := omega) only [toWord_toUint32, toWord_toInt32, toWord_add, toWord_jsXor, toWord_jsShr, toWord_sha256RotR,
    h.2]
  rw [schedule.eq_def block n, if_neg (by omega), smallSigma0, smallSigma1]
  ac_rfl

theorem Scheduled.extendWords (h : Scheduled block 16 w) : Scheduled block 64 (extendWords w) := by
  have hloop : ∀ k ≤ 48, Scheduled block (16 + k) ((List.range' 16 k).foldl extendWord w) := by
    intro k
    induction k with
    | zero => exact fun _ => h
    | succ k ih =>
      intro hk
      rw [List.range'_concat, List.foldl_append, Nat.one_mul]
      exact (ih (by omega)).extend (by omega) (by omega)
  exact hloop 48 (Nat.le_refl 48)

/-! ### The compression -/

theorem toWord_sha256K (i : ℕ) : toWord (sha256K.getD i 0) = constants.getD i 0 := by
  have htable : sha256K.map toWord = constants := by decide +kernel
  rw [← htable]
  exact (List.getD_map sha256K 0 toWord).symm

theorem map_sha256Round (r : Registers ℤ) (hw : Scheduled block 64 w) (hi : i < 64) :
    (sha256Round w r i).map toWord = Sha256.round (r.map toWord) (constants.getD i 0) (schedule block i) := by
  have hword := hw.2 i hi
  ext1 <;>
    simp (disch := decide) only [sha256Round, Sha256.round, Registers.map, toWord_toInt32, toWord_add, toWord_jsXor, toWord_jsAnd,
      toWord_jsNot, toWord_sha256RotR, toWord_sha256K, hword, bigSigma0, bigSigma1, ch, maj]

theorem map_sha256Rounds (r : Registers ℤ) (hw : Scheduled block 64 w) :
    (sha256Rounds w r).map toWord = rounds (r.map toWord) block 64 := by
  have hloop : ∀ k ≤ 64, ((List.range k).foldl (sha256Round w) r).map toWord = rounds (r.map toWord) block k := by
    intro k
    induction k with
    | zero => exact fun _ => rfl
    | succ k ih =>
      intro hk
      rw [List.range_succ, List.foldl_append, rounds, List.range_succ, List.foldl_append, List.foldl_cons, List.foldl_nil,
        List.foldl_cons, List.foldl_nil, map_sha256Round _ hw hk, ih (by omega)]
      rfl
  exact hloop 64 (Nat.le_refl 64)

theorem map_addHash (hash r : Registers ℤ) : (addHash hash r).map toWord = sum (r.map toWord) (hash.map toWord) := by
  ext1 <;> simp only [addHash, sum, Registers.map, toWord_toInt32, toWord_add, add_comm]

/-- One block is compressed. -/
theorem ensures_sha256Chunk (hi : (i + 1) * 64 ≤ padded.length) (hw : w.length = 64) :
    Ensures (fun _ => False)
      (fun state => state.1.map toWord = compress (r.map toWord) (chunk 512 (byteBits padded) i) ∧ state.2.length = 64)
      (sha256Chunk padded (r, w) i) := by
  apply Ensures.bind (ensures_readWords hi hw)
  intro w' hsched
  have hfull := hsched.extendWords
  dsimp only
  generalize Arald.extendWords w' = full at hfull ⊢
  have hhash : (addHash r (sha256Rounds full r)).map toWord = compress (r.map toWord) (chunk 512 (byteBits padded) i) := by
    rw [map_addHash, map_sha256Rounds _ hfull, compress]
  exact Ensures.pure ⟨hhash, hfull.1⟩

theorem map_sha256Start : sha256Start.map toWord = initialHash := by decide +kernel

theorem ensures_sha256Chunks (padded : Buffer) :
    Ensures (fun _ => False)
      (fun state => state.1.map toWord = hashBlocks (byteBits padded) (padded.length / 64) ∧ state.2.length = 64)
      ((List.range (padded.length / 64)).foldlM (sha256Chunk padded) (sha256Start, List.replicate 64 0)) := by
  refine Ensures.foldlM_range (fun n (state : Registers ℤ × List ℤ) =>
    state.1.map toWord = hashBlocks (byteBits padded) n ∧ state.2.length = 64) ⟨map_sha256Start, rfl⟩ ?_
  intro n state hn hstate
  have hblock : (n + 1) * 64 ≤ padded.length := by omega
  refine (ensures_sha256Chunk hblock hstate.2).mono fun state' hnext => ⟨?_, hnext.2⟩
  rw [hnext.1, hstate.1, hashBlocks, hashBlocks, List.range_succ, List.foldl_append]
  rfl

/-- The words are written one after the other. -/
theorem writeWords_eq (r : Registers ℤ) :
    (List.range 8).foldl (fun out i => setUint32 out (i * 4) (jsShr (r.toList.getD i 0) 0)) (List.replicate 32 0) =
      r.toList.flatMap fun x => uint32Bytes (jsShr (jsShr x 0) 0).toNat := rfl

end

/-- The digest is the one of the standard, whatever the length is beyond the last whole block. -/
theorem sha256_eq_digest (bytes : Buffer) (hbytes : bytes.length < 2 ^ 29) :
    (sha256 bytes).map byteBits = .ok (digest (byteBits bytes)) := by
  have hloop := ensures_sha256Chunks (sha256Padded bytes)
  rw [sha256]
  cases hrun : (List.range ((sha256Padded bytes).length / 64)).foldlM (sha256Chunk (sha256Padded bytes))
      (sha256Start, List.replicate 64 0) with
  | error fault =>
    rw [hrun] at hloop
    exact hloop.elim
  | ok state =>
    have hhash := (hloop.of_eq_ok hrun).1
    have hblocks : (pad (byteBits bytes)).length / 512 = (sha256Padded bytes).length / 64 := by
      rw [← byteBits_sha256Padded hbytes, length_byteBits]
      omega
    have hword : ∀ x, byteBits (uint32Bytes (jsShr (jsShr x 0) 0).toNat) = toBits 32 (toWord x).toNat := by
      intro x
      rw [byteBits_uint32Bytes, jsShr_zero, jsShr_zero, toWord_toNat, Int.toNat_natCast]
    dsimp only [bind, Except.bind]
    rw [writeWords_eq]
    change Except.ok (byteBits _) = Except.ok _
    rw [digest, hblocks, ← byteBits_sha256Padded hbytes, ← hhash, ← Registers.map_toList, List.flatMap_map, byteBits,
      List.flatMap_assoc]
    exact congrArg Except.ok (List.flatMap_congr fun x _ => hword x)

theorem sha256_eq_digest_abc : List.length ([0x61, 0x62, 0x63] : Buffer) < 2 ^ 29 ∧
    (sha256 [0x61, 0x62, 0x63]).map byteBits = .ok (digest (byteBits [0x61, 0x62, 0x63])) :=
  ⟨by decide, sha256_eq_digest [0x61, 0x62, 0x63] (by decide)⟩

example : sha256 [0x61, 0x62, 0x63] = .ok
    [0xba, 0x78, 0x16, 0xbf, 0x8f, 0x01, 0xcf, 0xea, 0x41, 0x41, 0x40, 0xde, 0x5d, 0xae, 0x22, 0x23, 0xb0, 0x03, 0x61,
      0xa3, 0x96, 0x17, 0x7a, 0x9c, 0xb4, 0x10, 0xff, 0x61, 0xf2, 0x00, 0x15, 0xad] := by
  decide +kernel


end Arald
