import Arald.Qr.Codewords

/-!
# The codewords read back

The reader gets the bytes back from the bits of every version and level that they fit.
-/

namespace Arald

open Foundations

variable {bytes : List Codeword} {version : ℕ} {ecLevel : EcLevel} {bits : List Bool}

/-! ### Codewords and bits -/

theorem length_codewordBits (codewords : List Codeword) : (codewordBits codewords).length = 8 * codewords.length :=
  length_flatMap_of_length (fun _ => length_toBits 8 _) codewords

theorem codewordBits_append (xs ys : List Codeword) :
    codewordBits (xs ++ ys) = codewordBits xs ++ codewordBits ys := List.flatMap_append

theorem ofNat_ofBits_toBits (cw : Codeword) : BitVec.ofNat 8 (ofBits (toBits 8 cw.toNat)) = cw := by
  rw [ofBits_toBits, Nat.mod_eq_of_lt cw.isLt, BitVec.ofNat_toNat, BitVec.setWidth_eq]

/-- Codewords are read back from their bits. -/
theorem readCodewords_codewordBits (codewords : List Codeword) (rest : List Bool) :
    readCodewords (codewordBits codewords ++ rest) codewords.length = codewords := by
  refine List.ext_getElem (by simp [readCodewords]) fun i hi hi' => ?_
  have hchunk : chunk 8 (codewordBits codewords ++ rest) i = toBits 8 codewords[i].toNat :=
    chunk_flatMap (fun cw : Codeword => length_toBits 8 cw.toNat) codewords rest hi'
  simp only [readCodewords, List.getElem_map, List.getElem_range]
  rw [hchunk, ofNat_ofBits_toBits]

/-- The codewords of whole octets have these bits. -/
theorem codewordBits_readCodewords {count : ℕ} (h : bits.length = 8 * count) :
    codewordBits (readCodewords bits count) = bits := by
  have hoctet : ∀ i < count, toBits 8 (BitVec.ofNat 8 (ofBits (chunk 8 bits i))).toNat = chunk 8 bits i := by
    intro i hi
    have hlength : (chunk 8 bits i).length = 8 := by
      rw [chunk, List.length_take, List.length_drop]
      omega
    have hlt := ofBits_lt (chunk 8 bits i)
    rw [hlength] at hlt
    rw [BitVec.toNat_ofNat, Nat.mod_eq_of_lt hlt]
    conv_rhs => rw [← toBits_ofBits (chunk 8 bits i), hlength]
  rw [codewordBits, readCodewords, List.flatMap_map, List.flatMap_congr fun i hi => hoctet i (List.mem_range.mp hi),
    ← take_eq_flatMap_chunk, List.take_of_length_le (by omega)]

/-! ### Data codewords -/

/-- The header of byte mode and the bytes. -/
def headerBits (bytes : List Codeword) (version : ℕ) : List Bool :=
  toBits 4 4 ++ toBits (countBits version) bytes.length ++ codewordBits bytes

theorem length_headerBits (bytes : List Codeword) (version : ℕ) :
    (headerBits bytes version).length = requiredDataBits version bytes.length := by
  rw [headerBits, List.length_append, List.length_append, length_toBits, length_toBits, length_codewordBits,
    requiredDataBits, Nat.mul_comm]

theorem foldl_pushBits (bits : List Bool) (bytes : List Codeword) :
    bytes.foldl (fun bits b => pushBits bits b.toNat 8) bits = bits ++ codewordBits bytes := by
  induction bytes generalizing bits with
  | nil => simp [codewordBits]
  | cons b bytes ih => rw [List.foldl_cons, ih, pushBits, List.append_assoc, codewordBits, codewordBits, List.flatMap_cons]

/-- After the header and the bytes stand a few zeros, no more than there is room for. -/
theorem dataBits_eq {total : ℕ} (h : requiredDataBits version bytes.length ≤ total * 8) :
    ∃ zeros count, dataBits bytes version total = headerBits bytes version ++ zeros ∧
      (dataBits bytes version total).length = 8 * count ∧ count ≤ total := by
  have hheader : bytes.foldl (fun bits b => pushBits bits b.toNat 8)
      (pushBits (pushBits [] 4 4) bytes.length (countBits version)) = headerBits bytes version := by
    rw [foldl_pushBits]
    rfl
  rw [dataBits, hheader]
  generalize hterminator : List.replicate (min 4 (total * 8 - (headerBits bytes version).length)) false = terminator
  have hlength : (headerBits bytes version ++ terminator).length ≤ total * 8 := by
    rw [List.length_append, ← hterminator, List.length_replicate, length_headerBits]
    omega
  refine ⟨_, ((headerBits bytes version ++ terminator).length + 7) / 8, List.append_assoc .., ?_, by omega⟩
  rw [List.length_append, List.length_replicate]
  omega

theorem length_buildDataCodewords {total : ℕ} (h : requiredDataBits version bytes.length ≤ total * 8) :
    (buildDataCodewords bytes version total).length = total := by
  obtain ⟨zeros, count, -, hlength, hcount⟩ := dataBits_eq h
  simp only [buildDataCodewords, List.length_append, List.length_map, List.length_range]
  omega

/-- The data codewords begin with the header and the bytes. -/
theorem codewordBits_buildDataCodewords {total : ℕ} (h : requiredDataBits version bytes.length ≤ total * 8) :
    ∃ rest, codewordBits (buildDataCodewords bytes version total) = headerBits bytes version ++ rest := by
  obtain ⟨zeros, count, hbits, hlength, -⟩ := dataBits_eq h
  have hrounds : ((dataBits bytes version total).length + 7) / 8 = count := by omega
  rw [buildDataCodewords, hrounds, codewordBits_append]
  have hread := codewordBits_readCodewords hlength
  rw [readCodewords] at hread
  refine ⟨_, (congrArg (· ++ _) (hread.trans hbits)).trans (List.append_assoc ..)⟩

/-- The length of what fits can be counted. -/
theorem length_lt_of_fits (hversion : version ∈ versions) (h : fits bytes.length version ecLevel = true) :
    bytes.length < 2 ^ countBits version := by
  have hsmall : ∀ v ∈ versions, ∀ level : EcLevel,
      (capacity v level).totalDataCodewords ≤ if v ≤ 9 then 232 else 274 := by
    decide
  have htotal := hsmall version hversion ecLevel
  rw [fits, decide_eq_true_eq, requiredDataBits] at h
  rw [countBits] at h ⊢
  split_ifs at htotal h ⊢ with hnine
  · omega
  · omega

theorem readBytes_buildDataCodewords (hversion : version ∈ versions) (h : fits bytes.length version ecLevel = true) :
    readBytes version (buildDataCodewords bytes version (capacity version ecLevel).totalDataCodewords) =
      some bytes := by
  obtain ⟨rest, hrest⟩ := codewordBits_buildDataCodewords (decide_eq_true_eq.mp h)
  have hmode : ((headerBits bytes version ++ rest).take 4) = toBits 4 4 := by
    rw [headerBits, List.append_assoc, List.append_assoc]
    exact List.take_left' (length_toBits 4 4)
  have hdrop : (headerBits bytes version ++ rest).drop 4 =
      toBits (countBits version) bytes.length ++ (codewordBits bytes ++ rest) := by
    rw [headerBits, List.append_assoc, List.append_assoc]
    exact List.drop_left' (length_toBits 4 4)
  have hcount : ofBits (((headerBits bytes version ++ rest).drop 4).take (countBits version)) = bytes.length := by
    rw [hdrop, List.take_left' (length_toBits _ _), ofBits_toBits, Nat.mod_eq_of_lt (length_lt_of_fits hversion h)]
  have hbytes : (headerBits bytes version ++ rest).drop (4 + countBits version) = codewordBits bytes ++ rest := by
    rw [← List.drop_drop, hdrop, List.drop_left' (length_toBits _ _)]
  have hroom : 4 + countBits version + bytes.length * 8 ≤ (headerBits bytes version ++ rest).length := by
    rw [List.length_append, length_headerBits, requiredDataBits]
    exact Nat.le_add_right _ _
  rw [readBytes, hrest, hmode, hcount, hbytes, if_pos ⟨rfl, hroom⟩, readCodewords_codewordBits]

/-! ### Blocks -/

theorem length_takeBlocks {lengths : List ℕ} {codewords : List Codeword} (h : lengths.sum ≤ codewords.length) :
    (takeBlocks lengths codewords).map List.length = lengths := by
  induction lengths generalizing codewords with
  | nil => rfl
  | cons n lengths ih =>
    rw [List.sum_cons] at h
    rw [takeBlocks, List.map_cons, ih (by rw [List.length_drop]; omega), List.length_take, Nat.min_eq_left (by omega)]

theorem flatten_takeBlocks {lengths : List ℕ} {codewords : List Codeword} (h : lengths.sum = codewords.length) :
    (takeBlocks lengths codewords).flatten = codewords := by
  induction lengths generalizing codewords with
  | nil => exact (List.length_eq_zero_iff.mp h.symm).symm
  | cons n lengths ih =>
    rw [List.sum_cons] at h
    rw [takeBlocks, List.flatten_cons, ih (by rw [List.length_drop]; omega), List.take_append_drop]

theorem sum_blockLengths (cap : VersionCapacity) : cap.blockLengths.sum = cap.totalDataCodewords := by
  rw [VersionCapacity.blockLengths, VersionCapacity.totalDataCodewords, List.sum_append, List.sum_replicate]
  cases cap.group2 with
  | none => rfl
  | some g => simp

/-! ### Interleaving -/

variable {blocks : List (List Codeword)}

def codewordAt (blocks : List (List Codeword)) (slot : ℕ × ℕ) : Codeword := (blocks.getD slot.1 []).getD slot.2 0

/-- One round takes a codeword from every block that is long enough. -/
theorem filterMap_eq_slots (blocks : List (List Codeword)) (i : ℕ) :
    blocks.filterMap (fun block => block[i]?) =
      (((List.range blocks.length).filter fun j => i < (blocks.map List.length).getD j 0).map fun j => (j, i)).map
        (codewordAt blocks) := by
  rw [List.map_map]
  induction blocks with
  | nil => rfl
  | cons block blocks ih =>
    have htail : ((List.range blocks.length).map Nat.succ).filter
        (fun j => decide (i < ((block :: blocks).map List.length).getD j 0)) =
        ((List.range blocks.length).filter fun j => i < (blocks.map List.length).getD j 0).map Nat.succ := by
      rw [List.filter_map]
      rfl
    rw [List.length_cons, List.range_succ_eq_map, List.filter_cons, htail]
    by_cases hi : i < block.length
    · simp only [List.filterMap_cons, List.getElem?_eq_getElem hi]
      rw [ih, if_pos (by simpa using hi), List.map_cons, List.map_map]
      simp [codewordAt, Function.comp_def, hi]
    · simp only [List.filterMap_cons, List.getElem?_eq_none (Nat.le_of_not_lt hi)]
      rw [ih, if_neg (by simpa using hi), List.map_map]
      simp [codewordAt, Function.comp_def]

theorem interleave_eq_slots (blocks : List (List Codeword)) :
    interleave (maxLength (blocks.map List.length)) blocks =
      (slots (blocks.map List.length)).map (codewordAt blocks) := by
  rw [interleave, slots, List.map_flatMap, List.length_map]
  exact List.flatMap_congr fun i _ => filterMap_eq_slots blocks i

theorem le_maxLength {lengths : List ℕ} {n : ℕ} (h : n ∈ lengths) : n ≤ maxLength lengths := by
  induction lengths with
  | nil => cases h
  | cons m lengths ih =>
    rcases List.mem_cons.mp h with rfl | hmem
    · exact le_max_left ..
    · exact (ih hmem).trans (le_max_right ..)

theorem mem_slots {lengths : List ℕ} {i j : ℕ} (hj : j < lengths.length) (hi : i < lengths.getD j 0) :
    (j, i) ∈ slots lengths := by
  have hmem : lengths.getD j 0 ∈ lengths := by
    rw [List.getD_eq_getElem _ _ hj]
    exact List.getElem_mem hj
  rw [slots]
  refine List.mem_flatMap.mpr ⟨i, List.mem_range.mpr (hi.trans_le (le_maxLength hmem)), ?_⟩
  exact List.mem_map.mpr ⟨j, List.mem_filter.mpr ⟨List.mem_range.mpr hj, decide_eq_true hi⟩, rfl⟩

/-- The blocks are read back from their interleaved codewords. -/
theorem deinterleave_interleave (blocks : List (List Codeword)) (rest : List Codeword) :
    deinterleave (blocks.map List.length) (interleave (maxLength (blocks.map List.length)) blocks ++ rest) = blocks := by
  rw [interleave_eq_slots]
  refine List.ext_getElem (by simp [deinterleave]) fun j hj hj' => ?_
  have hlength : (blocks.map List.length).getD j 0 = blocks[j].length := by simp [hj']
  simp only [deinterleave, List.getElem_map, List.getElem_range]
  rw [hlength]
  refine List.ext_getElem (by simp) fun i hi hi' => ?_
  have hmem : (j, i) ∈ slots (blocks.map List.length) := mem_slots (by simpa using hj') (by rwa [hlength])
  have hidx := List.idxOf_lt_length_of_mem hmem
  simp only [List.getElem_map, List.getElem_range]
  rw [List.getD_eq_getElem?_getD, List.getElem?_append_left (by rwa [List.length_map]), List.getElem?_map,
    List.getElem?_idxOf hmem]
  simp [codewordAt, hj', hi']

/-! ### Blocks with their error correction -/

theorem maxLength_replicate {k n : ℕ} (hk : 0 < k) : maxLength (List.replicate k n) = n := by
  refine le_antisymm ?_ (le_maxLength (List.mem_replicate.mpr ⟨hk.ne', rfl⟩))
  clear hk
  induction k with
  | zero => exact Nat.zero_le n
  | succ k ih => exact max_le le_rfl ih

theorem map_length_rsEncode (blocks : List (List Codeword)) (ecLength : ℕ) :
    (blocks.map fun block => rsEncode block ecLength).map List.length = List.replicate blocks.length ecLength := by
  refine List.eq_replicate_iff.mpr ⟨by simp, fun n hn => ?_⟩
  simp only [List.map_map, List.mem_map, Function.comp_apply] at hn
  obtain ⟨block, -, rfl⟩ := hn
  exact length_rsEncode block ecLength

/-- Error correction codewords are interleaved as the data are. -/
theorem interleavedEc_eq (hblocks : blocks ≠ []) (ecLength : ℕ) :
    ((List.range ecLength).flatMap fun i =>
      (blocks.map fun block => rsEncode block ecLength).map fun block => block.getD i 0) =
    interleave (maxLength ((blocks.map fun block => rsEncode block ecLength).map List.length))
      (blocks.map fun block => rsEncode block ecLength) := by
  rw [map_length_rsEncode, maxLength_replicate (List.length_pos_iff.mpr hblocks), interleave]
  refine List.flatMap_congr fun i hi => ?_
  rw [List.filterMap_map, List.map_map, ← List.filterMap_eq_map]
  refine List.filterMap_congr fun block _ => ?_
  have hlt : i < (rsEncode block ecLength).length := by
    rw [length_rsEncode]
    exact List.mem_range.mp hi
  simp [hlt]

theorem syndromes_zip (blocks : List (List Codeword)) (ecLength : ℕ) :
    ((blocks.zip (blocks.map fun block => rsEncode block ecLength)).all fun b =>
      (syndromes (b.1 ++ b.2) ecLength).all fun s => s = 0) = true := by
  refine List.all_eq_true.mpr fun b hb => List.all_eq_true.mpr fun s hs => decide_eq_true ?_
  rw [List.zip_map_right, List.mem_map] at hb
  obtain ⟨⟨block, block'⟩, hmem, rfl⟩ := hb
  have hsame : block = block' := by
    obtain ⟨i, hi⟩ := List.mem_iff_getElem?.mp hmem
    rw [List.getElem?_zip_eq_some] at hi
    exact Option.some.inj (hi.1.symm.trans hi.2)
  subst hsame
  exact syndromes_rsEncode block ecLength s hs

/-- The number of codewords of a version. -/
def totalCodewords (cap : VersionCapacity) : ℕ :=
  cap.totalDataCodewords + cap.ecCodewordsPerBlock * cap.blockLengths.length

theorem length_slots : ∀ version ∈ versions, ∀ ecLevel : EcLevel,
    (capacity version ecLevel).blockLengths ≠ [] ∧
      (slots (capacity version ecLevel).blockLengths).length = (capacity version ecLevel).totalDataCodewords := by
  decide +kernel

theorem codewords_read (hversion : version ∈ versions) (hfits : fits bytes.length version ecLevel = true) :
    ∃ codewords, buildCodewordBits bytes version ecLevel = codewordBits codewords ∧
      codewords.length = totalCodewords (capacity version ecLevel) ∧
      ∀ rest, decodeCodewords version ecLevel (codewords ++ rest) = some bytes := by
  obtain ⟨hne, hslots⟩ := length_slots version hversion ecLevel
  have hread := readBytes_buildDataCodewords hversion hfits
  have hlength := length_buildDataCodewords (decide_eq_true_eq.mp hfits)
  generalize hcap : capacity version ecLevel = cap at hne hslots hread hlength
  generalize hdata : buildDataCodewords bytes version cap.totalDataCodewords = data at hread hlength
  have hsum : cap.blockLengths.sum = data.length := by rw [sum_blockLengths, hlength]
  have hlengths : (splitIntoBlocks data cap).map List.length = cap.blockLengths := length_takeBlocks hsum.le
  have hflatten : (splitIntoBlocks data cap).flatten = data := flatten_takeBlocks hsum
  generalize hblocks : splitIntoBlocks data cap = blocks at hlengths hflatten
  have hcount : blocks.length = cap.blockLengths.length := by rw [← hlengths, List.length_map]
  have hblocksne : blocks ≠ [] := by
    rintro rfl
    exact hne hlengths.symm
  generalize hec : (blocks.map fun block => rsEncode block cap.ecCodewordsPerBlock) = ecBlocks
  have heclengths : ecBlocks.map List.length = List.replicate cap.blockLengths.length cap.ecCodewordsPerBlock := by
    rw [← hec, map_length_rsEncode, hcount]
  have hinterleaved : (interleave (maxLength (blocks.map List.length)) blocks).length = cap.totalDataCodewords := by
    rw [interleave_eq_slots, List.length_map, hlengths, hslots]
  refine ⟨interleave (maxLength (blocks.map List.length)) blocks ++
    interleave (maxLength (ecBlocks.map List.length)) ecBlocks, ?_, ?_, fun rest => ?_⟩
  · rw [buildCodewordBits, hcap, hdata, hblocks, interleavedEc_eq hblocksne, hec]
  · rw [List.length_append, hinterleaved, ← hec, ← interleavedEc_eq hblocksne, totalCodewords, ← hcount,
      length_flatMap_of_length (fun i => List.length_map ..), List.length_range, List.length_map, Nat.mul_comm]
  · have hblocksRead := deinterleave_interleave blocks []
    have hecRead := deinterleave_interleave ecBlocks rest
    rw [List.append_nil, hlengths] at hblocksRead
    rw [heclengths] at hecRead
    rw [decodeCodewords, hcap, List.append_assoc, List.take_left' hinterleaved, List.drop_left' hinterleaved, hlengths,
      hblocksRead, heclengths, hecRead, ← hec, if_pos (syndromes_zip blocks _), hflatten, hread]

end Arald
