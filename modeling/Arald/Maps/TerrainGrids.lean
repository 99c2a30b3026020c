import Arald.Foundations.BitLists
import Arald.Foundations.Deltas
import Arald.Foundations.JsBits
import Arald.Content.Buffers

/-!
# Grids of heights

The heights of a grid as differences along its rows, in sixteen bits that wrap, as the tiles and
the packs of the terrain store them. The class of a cell is an index.
-/

namespace Arald

open Foundations

/-- An element of an `Int16Array`. -/
abbrev Height := BitVec 16

/-- The number of classes in `COVER_CLASSES`. -/
def coverClasses : ℕ := 5

/-! ### Words of either size, least significant byte first -/

/-- `view.setInt16(offset, value, true)`. -/
def int16Bytes (value : ℤ) : Buffer :=
  let word := (BitVec.ofInt 16 value).toNat
  [UInt8.ofNat word, UInt8.ofNat (word / 2 ^ 8)]

/-- `view.getInt16(offset, true)`. -/
def getInt16 (bytes : Buffer) (offset : ℕ) : Except Fault ℤ := do
  let low ← byteAt bytes offset
  let high ← byteAt bytes (offset + 1)
  return (BitVec.ofNat 16 (high.toNat * 2 ^ 8 + low.toNat)).toInt

def uint32BytesLE (n : ℕ) : Buffer := (uint32Bytes n).reverse

/-- `view.getUint32(offset, true)`. -/
def getUint32LE (bytes : Buffer) (offset : ℕ) : Except Fault ℕ := do
  let a ← byteAt bytes offset
  let b ← byteAt bytes (offset + 1)
  let c ← byteAt bytes (offset + 2)
  let d ← byteAt bytes (offset + 3)
  return ((d.toNat * 256 + c.toNat) * 256 + b.toNat) * 256 + a.toNat

/-! ### The loops -/

/-- `x << 16 >> 16`. -/
def wrap16 (x : ℤ) : ℤ := jsSar (jsShl x 16) 16

/-- The bytes so far and the height before. -/
def encodeCell (s : Buffer × ℤ) (v : Height) : Buffer × ℤ := (s.1 ++ int16Bytes (wrap16 (v.toInt - s.2)), v.toInt)

def encodeRow (elevation : List Height) (cols : ℕ) (out : Buffer) (r : ℕ) : Buffer :=
  ((List.range cols).foldl (fun s c => encodeCell s (elevation.getD (r * cols + c) 0)) (out, 0)).1

def encodeHeights (rows cols : ℕ) (elevation : List Height) : Buffer :=
  (List.range rows).foldl (encodeRow elevation cols) []

/-- The variables of the loops of a decoder. The heights are stored in order. -/
structure HeightReader where
  elevation : List Height
  prev : ℤ
  off : ℕ

def decodeCell (bytes : Buffer) (s : HeightReader) : Except Fault HeightReader := do
  let d ← getInt16 bytes s.off
  let prev := wrap16 (s.prev + d)
  return ⟨s.elevation ++ [BitVec.ofInt 16 prev], prev, s.off + 2⟩

def decodeRow (bytes : Buffer) (cols : ℕ) (s : HeightReader) : Except Fault HeightReader :=
  (List.range cols).foldlM (fun s _ => decodeCell bytes s) { s with prev := 0 }

def decodeHeights (bytes : Buffer) (start rows cols : ℕ) : Except Fault HeightReader :=
  (List.range rows).foldlM (fun s _ => decodeRow bytes cols s) ⟨[], 0, start⟩

/-! ### The parts of a file -/

def terrainFile (magic head : Buffer) (rows cols : ℕ) (elevation : List Height) (cover : Buffer) : Buffer :=
  magic ++ uint32BytesLE head.length ++ (head ++ (encodeHeights rows cols elevation ++ cover))

/-- The length of the header, by the checks that come before its text is read. -/
def readHeadLen (magic : Buffer) (limit : ℕ) (notOne invalid : String) (bytes : Buffer) : Except Fault ℕ := do
  if bytes.length < 8 ∨ bytes.take 4 ≠ magic then throw (.thrown notOne)
  let headLen ← getUint32LE bytes 4
  if limit < headLen ∨ bytes.length < 8 + headLen then throw (.thrown invalid)
  return headLen

/-- The classes of the cells, from an offset to the end of the grid. -/
def readCover (bytes : Buffer) (off n : ℕ) (unknown : String) : Except Fault Buffer :=
  let cover := subarray bytes off (off + n)
  if cover.any fun code => coverClasses ≤ code.toNat then .error (.thrown unknown) else .ok cover

/-! ### Words -/

section
variable {bytes : Buffer} {offset : ℕ}

theorem getInt16_append (before : Buffer) (value : ℤ) (rest : Buffer) :
    getInt16 (before ++ (int16Bytes value ++ rest)) before.length = .ok (BitVec.ofInt 16 value).toInt := by
  have hlow := byteAt_length_add before (int16Bytes value ++ rest) 0
  have hhigh := byteAt_length_add before (int16Bytes value ++ rest) 1
  have hword : BitVec.ofNat 16 ((UInt8.ofNat ((BitVec.ofInt 16 value).toNat / 2 ^ 8)).toNat * 2 ^ 8 +
      (UInt8.ofNat (BitVec.ofInt 16 value).toNat).toNat) = BitVec.ofInt 16 value := by
    have hlt := (BitVec.ofInt 16 value).isLt
    apply BitVec.eq_of_toNat_eq
    rw [BitVec.toNat_ofNat, UInt8.toNat_ofNat', UInt8.toNat_ofNat']
    omega
  rw [getInt16, ← Nat.add_zero before.length, hlow, Nat.add_assoc, Nat.zero_add, hhigh]
  change Except.ok (BitVec.toInt _) = _
  rw [hword]

theorem getUint32LE_append (before : Buffer) {n : ℕ} (h : n < 2 ^ 32) (rest : Buffer) :
    getUint32LE (before ++ (uint32BytesLE n ++ rest)) before.length = .ok n := by
  have hbyte := byteAt_length_add before (uint32BytesLE n ++ rest)
  rw [getUint32LE, ← Nat.add_zero before.length, hbyte, Nat.add_assoc, Nat.add_assoc, Nat.add_assoc, hbyte, hbyte, hbyte]
  change Except.ok (((UInt8.toNat _ * 256 + UInt8.toNat _) * 256 + UInt8.toNat _) * 256 + UInt8.toNat _) = _
  simp only [UInt8.toNat_ofNat', Except.ok.injEq]
  omega

theorem ensures_getInt16 (h : offset + 2 ≤ bytes.length) :
    Ensures Fault.IsThrown (fun _ => True) (getInt16 bytes offset) := by
  rw [getInt16, byteAt_of_lt (by omega), byteAt_of_lt (by omega)]
  trivial

theorem ensures_getUint32LE (h : offset + 4 ≤ bytes.length) :
    Ensures Fault.IsThrown (fun _ => True) (getUint32LE bytes offset) := by
  rw [getUint32LE, byteAt_of_lt (by omega), byteAt_of_lt (by omega), byteAt_of_lt (by omega), byteAt_of_lt (by omega)]
  trivial

end

/-! ### What is written -/

theorem wrap16_sub (v prev : Height) : wrap16 (v.toInt - prev.toInt) = (v - prev).toInt := by
  rw [wrap16, jsSar_jsShl, BitVec.toInt_sub]

theorem wrap16_add (prev d : Height) : wrap16 (prev.toInt + d.toInt) = (prev + d).toInt := by
  rw [wrap16, jsSar_jsShl, BitVec.toInt_add]

/-- The bytes of a row after a height. -/
def rowBytes (prev : Height) (row : List Height) : Buffer := (deltas prev row).flatMap fun d => int16Bytes d.toInt

theorem length_rowBytes (prev : Height) (row : List Height) : (rowBytes prev row).length = 2 * row.length := by
  have htwo : ∀ d : Height, (int16Bytes d.toInt).length = 2 := fun _ => rfl
  rw [rowBytes, length_flatMap_of_length htwo, length_deltas]

theorem foldl_encodeCell (out : Buffer) (prev : Height) (row : List Height) :
    (row.foldl encodeCell (out, prev.toInt)).1 = out ++ rowBytes prev row := by
  induction row generalizing out prev with
  | nil => exact (List.append_nil out).symm
  | cons v row ih =>
    rw [List.foldl_cons, encodeCell, wrap16_sub, ih, rowBytes, rowBytes, deltas, List.flatMap_cons, List.append_assoc]

theorem encodeRow_eq (elevation : List Height) (cols : ℕ) (out : Buffer) (r : ℕ)
    (h : (r + 1) * cols ≤ elevation.length) :
    encodeRow elevation cols out r = out ++ rowBytes 0 (chunk cols elevation r) := by
  rw [Nat.succ_mul] at h
  rw [encodeRow, foldl_range_getD encodeCell (out, 0) elevation 0 (r * cols) cols h]
  exact foldl_encodeCell out 0 _

theorem encodeHeights_eq {rows cols : ℕ} {elevation : List Height} (h : elevation.length = rows * cols) :
    encodeHeights rows cols elevation = ((List.range rows).map (chunk cols elevation)).flatMap (rowBytes 0) := by
  have hloop : ∀ n ≤ rows, (List.range n).foldl (encodeRow elevation cols) [] =
      ((List.range n).map (chunk cols elevation)).flatMap (rowBytes 0) := by
    intro n
    induction n with
    | zero => exact fun _ => rfl
    | succ n ih =>
      intro hn
      have hrow : (n + 1) * cols ≤ elevation.length := h ▸ Nat.mul_le_mul_right cols hn
      rw [List.range_succ, List.foldl_append, ih (by omega), List.foldl_cons, List.foldl_nil,
        encodeRow_eq _ _ _ _ hrow, List.map_append, List.flatMap_append]
      simp
  exact hloop rows (Nat.le_refl rows)

theorem length_encodeHeights {rows cols : ℕ} {elevation : List Height} (h : elevation.length = rows * cols) :
    (encodeHeights rows cols elevation).length = 2 * (rows * cols) := by
  have hcells : elevation.length = ((List.range rows).map fun r => (chunk cols elevation r).length).sum := by
    rw [← List.length_flatMap, ← take_eq_flatMap_chunk, ← h, List.take_length]
  rw [encodeHeights_eq h, List.flatMap_map, List.length_flatMap, ← h, hcells, ← List.sum_map_mul_left]
  simp only [length_rowBytes]

/-! ### What is read back -/

theorem decodeCell_append (before rest : Buffer) (done : List Height) (prev d : Height) :
    decodeCell (before ++ (int16Bytes d.toInt ++ rest)) ⟨done, prev.toInt, before.length⟩ =
      .ok ⟨done ++ [prev + d], (prev + d).toInt, (before ++ int16Bytes d.toInt).length⟩ := by
  rw [decodeCell, getInt16_append, BitVec.ofInt_toInt]
  change Except.ok (HeightReader.mk (done ++ [BitVec.ofInt 16 (wrap16 (prev.toInt + d.toInt))]) _ _) = _
  rw [wrap16_add, BitVec.ofInt_toInt, List.length_append]
  rfl

/-- The cells of a row are read, one for each index of the loop. -/
theorem decodeCells_append (indices : List ℕ) (before rest : Buffer) (done : List Height) (prev : Height)
    (row : List Height) (h : indices.length = row.length) :
    ∃ last, indices.foldlM (fun s _ => decodeCell (before ++ (rowBytes prev row ++ rest)) s)
        ⟨done, prev.toInt, before.length⟩ = .ok ⟨done ++ row, last, before.length + 2 * row.length⟩ := by
  induction row generalizing indices before done prev with
  | nil =>
    rw [List.eq_nil_of_length_eq_zero h, List.append_nil]
    exact ⟨prev.toInt, rfl⟩
  | cons v row ih =>
    obtain ⟨i, indices, rfl⟩ := List.exists_cons_of_length_eq_add_one h
    have hbytes : before ++ (rowBytes prev (v :: row) ++ rest) =
        before ++ (int16Bytes (v - prev).toInt ++ (rowBytes v row ++ rest)) := by
      rw [rowBytes, deltas, List.flatMap_cons, List.append_assoc]
      rfl
    have hcell := decodeCell_append before (rowBytes v row ++ rest) done prev (v - prev)
    rw [add_sub_cancel] at hcell
    obtain ⟨last, hrest⟩ := ih indices (before ++ int16Bytes (v - prev).toInt) (done ++ [v]) v (Nat.succ_injective h)
    refine ⟨last, ?_⟩
    rw [hbytes, List.foldlM_cons, hcell]
    rw [List.append_assoc, List.append_assoc] at hrest
    refine hrest.trans ?_
    rw [List.length_append, List.length_cons, List.singleton_append]
    change Except.ok (HeightReader.mk _ _ (before.length + 2 + 2 * row.length)) = _
    rw [Nat.mul_succ, Nat.add_right_comm, Nat.add_assoc]

theorem decodeRows_append (indices : List ℕ) (cols : ℕ) (before rest : Buffer) (done : List Height) (last : ℤ)
    (rows : List (List Height)) (h : indices.length = rows.length) (hrows : ∀ row ∈ rows, row.length = cols) :
    ∃ last', indices.foldlM (fun s _ => decodeRow (before ++ (rows.flatMap (rowBytes 0) ++ rest)) cols s)
        ⟨done, last, before.length⟩ = .ok ⟨done ++ rows.flatten, last', before.length + 2 * rows.flatten.length⟩ := by
  induction rows generalizing indices before done last with
  | nil =>
    rw [List.eq_nil_of_length_eq_zero h, List.flatten_nil, List.append_nil]
    exact ⟨last, rfl⟩
  | cons row rows ih =>
    obtain ⟨i, indices, rfl⟩ := List.exists_cons_of_length_eq_add_one h
    have hcols := hrows row List.mem_cons_self
    have hbytes : before ++ ((row :: rows).flatMap (rowBytes 0) ++ rest) =
        before ++ (rowBytes 0 row ++ (rows.flatMap (rowBytes 0) ++ rest)) := by
      rw [List.flatMap_cons, List.append_assoc]
    have hindices : (List.range cols).length = row.length := by rw [List.length_range, hcols]
    obtain ⟨last', hrow⟩ := decodeCells_append (List.range cols) before (rows.flatMap (rowBytes 0) ++ rest) done 0 row
      hindices
    obtain ⟨last'', hrest⟩ := ih indices (before ++ rowBytes 0 row) (done ++ row) last' (Nat.succ_injective h)
      fun other hmem => hrows other (List.mem_cons_of_mem _ hmem)
    refine ⟨last'', ?_⟩
    rw [List.append_assoc, List.append_assoc, List.length_append, length_rowBytes] at hrest
    rw [hbytes, List.foldlM_cons, decodeRow]
    change (List.foldlM _ (HeightReader.mk done (0 : Height).toInt _) _ >>= _) = _
    rw [hrow]
    refine hrest.trans ?_
    rw [List.flatten_cons, List.length_append, Nat.mul_add, Nat.add_assoc]

/-- The heights of a grid are read back, wherever their differences wrap. -/
theorem decodeHeights_encodeHeights {rows cols : ℕ} {elevation : List Height} (h : elevation.length = rows * cols)
    (before rest : Buffer) :
    ∃ last, decodeHeights (before ++ (encodeHeights rows cols elevation ++ rest)) before.length rows cols =
      .ok ⟨elevation, last, before.length + 2 * (rows * cols)⟩ := by
  have hflat : ((List.range rows).map (chunk cols elevation)).flatten = elevation := by
    rw [← List.flatMap_def, ← take_eq_flatMap_chunk, ← h, List.take_length]
  have hrows : ∀ row ∈ (List.range rows).map (chunk cols elevation), row.length = cols := by
    intro row hmem
    obtain ⟨r, hr, rfl⟩ := List.mem_map.mp hmem
    have hle : (r + 1) * cols ≤ elevation.length := h ▸ Nat.mul_le_mul_right cols (List.mem_range.mp hr)
    rw [Nat.succ_mul] at hle
    rw [chunk, List.length_take, List.length_drop]
    omega
  have hread := decodeRows_append (List.range rows) cols before rest [] 0 _ (by simp) hrows
  rw [hflat, h, ← encodeHeights_eq h] at hread
  exact hread

theorem ensures_decodeHeights {bytes : Buffer} {start rows cols : ℕ} (h : start + 2 * (rows * cols) ≤ bytes.length) :
    Ensures Fault.IsThrown (fun s => s.elevation.length = rows * cols ∧ s.off = start + 2 * (rows * cols))
      (decodeHeights bytes start rows cols) := by
  refine Ensures.foldlM_range (fun r (s : HeightReader) => s.elevation.length = r * cols ∧ s.off = start + 2 * (r * cols))
    ⟨(Nat.zero_mul cols).symm, by rw [Nat.zero_mul]; rfl⟩ ?_
  intro r s hr hs
  have hrow : (r + 1) * cols ≤ rows * cols := Nat.mul_le_mul_right cols hr
  rw [Nat.succ_mul] at hrow ⊢
  refine Ensures.foldlM_range (fun c (s : HeightReader) =>
    s.elevation.length = r * cols + c ∧ s.off = start + 2 * (r * cols + c)) hs ?_
  intro c s hc hs
  refine Ensures.bind (ensures_getInt16 (by omega)) fun d _ => Ensures.pure ?_
  rw [List.length_append, hs.1, hs.2]
  exact ⟨rfl, rfl⟩

/-! ### Files -/

section
variable {magic bytes head : Buffer} {rows cols limit n off : ℕ} {elevation : List Height} {cover : Buffer}
variable {notOne invalid unknown : String}

theorem length_terrainFile (magic : Buffer) (hmagic : magic.length = 4) (head : Buffer)
    (h : elevation.length = rows * cols) (cover : Buffer) :
    (terrainFile magic head rows cols elevation cover).length = 8 + head.length + (2 * (rows * cols) + cover.length) := by
  rw [terrainFile, List.length_append, List.length_append, List.length_append, List.length_append, hmagic,
    length_encodeHeights h]
  change 4 + 4 + _ = _
  omega

theorem readHeadLen_terrainFile (hmagic : magic.length = 4) (hhead : head.length ≤ limit) (hlimit : limit < 2 ^ 32) :
    readHeadLen magic limit notOne invalid (terrainFile magic head rows cols elevation cover) = .ok head.length := by
  rw [terrainFile]
  generalize encodeHeights rows cols elevation ++ cover = rest
  have hlength : (magic ++ uint32BytesLE head.length ++ (head ++ rest)).length = 8 + (head.length + rest.length) := by
    rw [List.length_append, List.length_append, List.length_append, hmagic]
    rfl
  have htake : (magic ++ uint32BytesLE head.length ++ (head ++ rest)).take 4 = magic := by
    rw [List.append_assoc, List.take_left' hmagic]
  have hread : getUint32LE (magic ++ uint32BytesLE head.length ++ (head ++ rest)) 4 = .ok head.length := by
    rw [← hmagic, List.append_assoc]
    exact getUint32LE_append magic (by omega) (head ++ rest)
  rw [readHeadLen, hlength, htake, hread, if_neg (by simp)]
  dsimp only [bind, Except.bind]
  rw [if_neg (by omega)]
  rfl

theorem subarray_terrainFile (hmagic : magic.length = 4) :
    subarray (terrainFile magic head rows cols elevation cover) 8 (8 + head.length) = head := by
  have hstart : (magic ++ uint32BytesLE head.length).length = 8 := by
    rw [List.length_append, hmagic]
    rfl
  rw [terrainFile, ← hstart]
  exact subarray_append _ head _

theorem decodeHeights_terrainFile (magic : Buffer) (hmagic : magic.length = 4) (head : Buffer)
    (h : elevation.length = rows * cols) (cover : Buffer) :
    ∃ last, decodeHeights (terrainFile magic head rows cols elevation cover) (8 + head.length) rows cols =
      .ok ⟨elevation, last, 8 + head.length + 2 * (rows * cols)⟩ := by
  have hread := decodeHeights_encodeHeights h (magic ++ uint32BytesLE head.length ++ head) cover
  have hstart : (magic ++ uint32BytesLE head.length ++ head).length = 8 + head.length := by
    rw [List.length_append, List.length_append, hmagic]
    rfl
  rwa [hstart, List.append_assoc (_ ++ _)] at hread

theorem readCover_terrainFile (magic : Buffer) (hmagic : magic.length = 4) (head : Buffer)
    (h : elevation.length = rows * cols) (hcover : ∀ code ∈ cover, code.toNat < coverClasses) (unknown : String) :
    readCover (terrainFile magic head rows cols elevation cover) (8 + head.length + 2 * (rows * cols)) cover.length
      unknown = .ok cover := by
  have hall : (cover.any fun code => coverClasses ≤ code.toNat) = false := by
    simpa using hcover
  have hsub := subarray_append (magic ++ uint32BytesLE head.length ++ (head ++ encodeHeights rows cols elevation)) cover []
  have hstart : (magic ++ uint32BytesLE head.length ++ (head ++ encodeHeights rows cols elevation)).length =
      8 + head.length + 2 * (rows * cols) := by
    rw [List.length_append, List.length_append, List.length_append, length_encodeHeights h, hmagic, Nat.add_assoc 8]
    rfl
  rw [hstart, List.append_nil, List.append_assoc (_ ++ _), List.append_assoc head] at hsub
  rw [readCover, terrainFile, hsub, hall]
  rfl

theorem ensures_readHeadLen :
    Ensures Fault.IsThrown (fun headLen => 8 + headLen ≤ bytes.length)
      (readHeadLen magic limit notOne invalid bytes) := by
  rw [readHeadLen]
  apply Ensures.ite
  · exact fun _ => trivial
  · intro hlength
    apply Ensures.bind (ensures_getUint32LE (by omega))
    intro headLen _
    apply Ensures.ite
    · exact fun _ => trivial
    · intro hhead
      exact Ensures.pure (by omega)

theorem ensures_readCover (h : off + n ≤ bytes.length) :
    Ensures Fault.IsThrown (fun cover => cover.length = n ∧ ∀ code ∈ cover, code.toNat < coverClasses)
      (readCover bytes off n unknown) := by
  rw [readCover]
  apply Ensures.ite
  · exact fun _ => trivial
  · intro hcover
    refine ⟨?_, ?_⟩
    · rw [subarray, List.length_take, List.length_drop]
      omega
    · simpa using hcover

end

end Arald
