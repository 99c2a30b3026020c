import Arald.Qr.ReadBack

/-!
# The round trip

Data along the zigzag, the chosen mask and the format bits are all read back, and the
version is the smallest one of its level.
-/

namespace Arald

open Foundations

variable {version size mask : ℕ} {ecLevel : EcLevel} {canvas : Canvas} {cell : Cell} {bits : List Bool}

/-! ### The zigzag -/

/-- The columns of two turns are different ones. -/
def columnsApart (a b : ℕ × Bool) : Prop := a.1 ≠ b.1 ∧ a.1 ≠ b.1 - 1 ∧ a.1 - 1 ≠ b.1 ∧ a.1 - 1 ≠ b.1 - 1

instance : DecidableRel columnsApart := fun a b => by unfold columnsApart; infer_instance

theorem zigzagColumns_spec : ∀ v ∈ versions,
    (zigzagColumns (matrixSize v) (matrixSize v - 1) true).Pairwise columnsApart ∧
      ∀ column ∈ zigzagColumns (matrixSize v) (matrixSize v - 1) true, 0 < column.1 ∧ column.1 < matrixSize v := by
  decide

/-- The row of a round of the inner loop. -/
def zigzagRow (size : ℕ) (upward : Bool) (count : ℕ) : ℕ := if upward then size - 1 - count else count

theorem zigzagRow_lt {upward : Bool} {count : ℕ} (h : count < size) : zigzagRow size upward count < size := by
  rw [zigzagRow]
  split_ifs <;> omega

theorem zigzagRow_injective {upward : Bool} {a b : ℕ} (ha : a < size) (hb : b < size)
    (h : zigzagRow size upward a = zigzagRow size upward b) : a = b := by
  rw [zigzagRow, zigzagRow] at h
  split_ifs at h <;> omega

/-- The cells of one turn. -/
def turnCells (size : ℕ) (column : ℕ × Bool) : List Cell :=
  (List.range size).flatMap fun count =>
    [(zigzagRow size column.2 count, column.1), (zigzagRow size column.2 count, column.1 - 1)]

theorem zigzag_eq (size : ℕ) : zigzag size = (zigzagColumns size (size - 1) true).flatMap (turnCells size) := rfl

theorem mem_turnCells {column : ℕ × Bool} (h : cell ∈ turnCells size column) :
    cell.1 < size ∧ (cell.2 = column.1 ∨ cell.2 = column.1 - 1) := by
  obtain ⟨count, hcount, hmem⟩ := List.mem_flatMap.mp h
  have hrow := @zigzagRow_lt size column.2 count (List.mem_range.mp hcount)
  simp only [List.mem_cons, List.not_mem_nil, or_false] at hmem
  rcases hmem with rfl | rfl
  · exact ⟨hrow, Or.inl rfl⟩
  · exact ⟨hrow, Or.inr rfl⟩

theorem nodup_turnCells {column : ℕ × Bool} (h : 0 < column.1) : (turnCells size column).Nodup := by
  refine List.nodup_flatMap.mpr ⟨fun count _ => ?_, ?_⟩
  · have hne : column.1 ≠ column.1 - 1 := by omega
    simpa using hne
  · refine List.nodup_range.imp_of_mem fun {a b} ha hb hab => ?_
    intro cell hcell hcell'
    simp only [List.mem_cons, List.not_mem_nil, or_false] at hcell hcell'
    have hrow : zigzagRow size column.2 a = zigzagRow size column.2 b := by
      rcases hcell with rfl | rfl <;> rcases hcell' with h' | h' <;> exact congrArg Prod.fst h'
    exact hab (zigzagRow_injective (List.mem_range.mp ha) (List.mem_range.mp hb) hrow)

theorem nodup_zigzag (hversion : version ∈ versions) : (zigzag (matrixSize version)).Nodup := by
  obtain ⟨hapart, hcolumns⟩ := zigzagColumns_spec version hversion
  rw [zigzag_eq]
  refine List.nodup_flatMap.mpr ⟨fun column hcolumn => nodup_turnCells (hcolumns column hcolumn).1, ?_⟩
  refine hapart.imp fun {a b} hab => ?_
  intro cell hcell hcell'
  have ha := (mem_turnCells hcell).2
  have hb := (mem_turnCells hcell').2
  obtain ⟨h1, h2, h3, h4⟩ := hab
  omega

theorem zigzag_lt (hversion : version ∈ versions) (h : cell ∈ zigzag (matrixSize version)) :
    cell.1 < matrixSize version ∧ cell.2 < matrixSize version := by
  rw [zigzag_eq] at h
  obtain ⟨column, hcolumn, hmem⟩ := List.mem_flatMap.mp h
  obtain ⟨hrow, hcol⟩ := mem_turnCells hmem
  have hlt := ((zigzagColumns_spec version hversion).2 column hcolumn).2
  exact ⟨hrow, by omega⟩

/-- No turn reads column 6. -/
theorem zigzag_skips (hversion : version ∈ versions) (h : cell ∈ zigzag (matrixSize version)) : cell.2 ≠ 6 := by
  have hskips : ∀ v ∈ versions, ∀ column ∈ zigzagColumns (matrixSize v) (matrixSize v - 1) true,
      column.1 ≠ 6 ∧ column.1 ≠ 7 := by decide
  rw [zigzag_eq] at h
  obtain ⟨column, hcolumn, hmem⟩ := List.mem_flatMap.mp h
  have hcol := (mem_turnCells hmem).2
  have hskip := hskips version hversion column hcolumn
  omega

theorem length_turnCells (size : ℕ) (column : ℕ × Bool) : (turnCells size column).length = size * 2 := by
  simp [turnCells, List.length_flatMap]

theorem length_zigzag (hversion : version ∈ versions) :
    (zigzag (matrixSize version)).length = (matrixSize version - 1) / 2 * (matrixSize version * 2) := by
  have hturns : ∀ v ∈ versions,
      (zigzagColumns (matrixSize v) (matrixSize v - 1) true).length = (matrixSize v - 1) / 2 := by decide
  rw [zigzag_eq, List.length_flatMap, List.map_congr_left fun column _ => length_turnCells _ column,
    List.map_const', List.sum_replicate, hturns version hversion, smul_eq_mul]

/-! ### The room for data -/

/-- The columns of the corners on the left that some turn reads. -/
def leftColumns : List ℕ := [0, 1, 2, 3, 4, 5, 7, 8]

/-- The lines through an alignment pattern that no timing pattern takes. -/
def alignmentLines (center : ℕ) : List ℕ := ((List.range 5).map (center - 2 + ·)).filter (· ≠ 6)

/-- The function cells outside column 6, region by region. -/
def functionCells (version : ℕ) : List Cell :=
  let size := matrixSize version
  pairs (List.range 9) (leftColumns ++ (List.range 8).map (size - 8 + ·)) ++
    pairs ((List.range 8).map (size - 8 + ·)) leftColumns ++
    (List.range (size - 17)).map (fun i => (6, 9 + i)) ++
    (if 7 ≤ version then pairs (List.range 6) ((List.range 3).map (size - 11 + ·)) ++
      pairs ((List.range 3).map (size - 11 + ·)) (List.range 6) else []) ++
    (alignmentCenters version).flatMap fun center => pairs (alignmentLines center.1) (alignmentLines center.2)

theorem mem_pairs_iff {α β : Type} {rs : List α} {cs : List β} {rc : α × β} :
    rc ∈ pairs rs cs ↔ rc.1 ∈ rs ∧ rc.2 ∈ cs := by
  simp [pairs, Prod.ext_iff, eq_comm]

theorem mem_shifted {first count n : ℕ} : n ∈ (List.range count).map (first + ·) ↔ first ≤ n ∧ n < first + count := by
  rw [List.mem_map]
  constructor
  · rintro ⟨i, hi, rfl⟩
    rw [List.mem_range] at hi
    omega
  · rintro ⟨hfirst, hlast⟩
    exact ⟨n - first, List.mem_range.mpr (by omega), by omega⟩

theorem mem_leftColumns {n : ℕ} : n ∈ leftColumns ↔ n ≤ 8 ∧ n ≠ 6 := by
  simp only [leftColumns, List.mem_cons, List.not_mem_nil, or_false]
  omega

theorem mem_alignmentLines_of_near {center n : ℕ} (hfirst : center ≤ n + 2) (hlast : n ≤ center + 2)
    (hskip : n ≠ 6) : n ∈ alignmentLines center := by
  rw [alignmentLines, List.mem_filter, mem_shifted]
  exact ⟨by omega, by simpa using hskip⟩

theorem mem_functionCells (hcell : cell.1 < matrixSize version ∧ cell.2 < matrixSize version) (hskip : cell.2 ≠ 6)
    (h : isFunctionCell version cell = true) : cell ∈ functionCells version := by
  obtain ⟨hrow, hcol⟩ := hcell
  have hsize : matrixSize version = 17 + 4 * version := rfl
  rw [isFunctionCell, Bool.or_eq_true] at h
  simp only [functionCells, List.mem_append, mem_pairs_iff, mem_shifted, mem_leftColumns, List.mem_range]
  by_cases hcenter : cell.1 ≠ 6 ∧ (alignmentCenters version).any (nearCenter cell) = true
  · right
    obtain ⟨center, hmem, hnear⟩ := List.any_eq_true.mp hcenter.2
    simp only [nearCenter, Bool.and_eq_true, decide_eq_true_eq] at hnear
    obtain ⟨⟨⟨hfirstRow, hlastRow⟩, hfirstCol⟩, hlastCol⟩ := hnear
    exact List.mem_flatMap.mpr ⟨center, hmem, mem_pairs_iff.mpr
      ⟨mem_alignmentLines_of_near hfirstRow hlastRow hcenter.1,
        mem_alignmentLines_of_near hfirstCol hlastCol hskip⟩⟩
  · left
    rw [not_and_or, not_not] at hcenter
    replace h := hcenter.imp_right fun hnone => h.resolve_right hnone
    simp only [Bool.or_eq_true, Bool.and_eq_true, decide_eq_true_eq] at h
    by_cases htiming : cell.1 = 6 ∧ 9 ≤ cell.2 ∧ cell.2 < matrixSize version - 8
    · obtain ⟨hsix, hfirst, hlast⟩ := htiming
      exact Or.inl (Or.inr (List.mem_map.mpr ⟨cell.2 - 9, List.mem_range.mpr (by omega),
        Prod.ext hsix.symm (Nat.add_sub_of_le hfirst)⟩))
    · split_ifs with hseven
      · simp only [List.mem_append, mem_pairs_iff, mem_shifted, List.mem_range]
        omega
      · omega

/-- The codewords of each version. -/
theorem totalCodewords_eq : ∀ v ∈ versions, ∀ level : EcLevel,
    totalCodewords (capacity v level) = [26, 44, 70, 100, 134, 172, 196, 242, 292, 346].getD (v - 1) 0 := by
  decide

theorem length_functionCells_le : ∀ v ∈ versions,
    8 * [26, 44, 70, 100, 134, 172, 196, 242, 292, 346].getD (v - 1) 0 + (functionCells v).length ≤
      (matrixSize v - 1) / 2 * (matrixSize v * 2) := by
  decide +kernel

theorem room_le (hversion : version ∈ versions) :
    8 * [26, 44, 70, 100, 134, 172, 196, 242, 292, 346].getD (version - 1) 0 ≤
      ((zigzag (matrixSize version)).filter fun cell => !isFunctionCell version cell).length := by
  have hfunction : ((zigzag (matrixSize version)).filter fun cell => isFunctionCell version cell).length ≤
      (functionCells version).length := by
    apply List.Subperm.length_le
    apply ((nodup_zigzag hversion).filter _).subperm
    intro cell hcell
    obtain ⟨hmem, hfunction⟩ := List.mem_filter.mp hcell
    exact mem_functionCells (zigzag_lt hversion hmem) (zigzag_skips hversion hmem) hfunction
  have hsum := List.length_eq_length_filter_add (l := zigzag (matrixSize version)) fun cell => isFunctionCell version cell
  have hroom := length_functionCells_le version hversion
  rw [length_zigzag hversion] at hsum
  omega

/-- There is room for all the bits. -/
theorem length_dataCells (hversion : version ∈ versions) (ecLevel : EcLevel) :
    8 * totalCodewords (capacity version ecLevel) ≤ (dataCells version).length := by
  rw [totalCodewords_eq version hversion]
  refine (room_le hversion).trans (List.Sublist.length_le ?_)
  refine List.monotone_filter_right _ fun cell hcell => ?_
  rw [Bool.not_eq_true'] at hcell ⊢
  rw [Bool.eq_false_iff] at hcell ⊢
  exact fun hreserved => hcell (isFunctionCell_of_reserved hversion hreserved)

/-! ### Data -/

/-- The loop writes one bit after the other to the cells that are not reserved. -/
theorem foldl_placeDataBits (reserved : Grid) (bits : List Bool) (cells : List Cell) (k : ℕ) (g : Grid) :
    (cells.foldl (fun (s : ℕ × Grid) cell =>
      if reserved cell then s else (s.1 + 1, s.2.set cell (bits.getD s.1 false))) (k, g)).2 =
    g.writeAll (((cells.filter fun cell => !reserved cell).zipIdx k).map fun ci => (ci.1, bits.getD ci.2 false)) := by
  induction cells generalizing k g with
  | nil => rfl
  | cons cell cells ih =>
    rw [List.foldl_cons]
    by_cases hreserved : reserved cell = true
    · rw [if_pos hreserved, ih, List.filter_cons_of_neg (by simpa using hreserved)]
    · rw [if_neg hreserved, ih, List.filter_cons_of_pos (by simpa using hreserved), List.zipIdx_cons, List.map_cons]
      rfl

theorem map_fst_zipIdx {α β : Type*} (l : List α) (k : ℕ) (f : α × ℕ → β) :
    ((l.zipIdx k).map fun ci => (ci.1, f ci)).map Prod.fst = l := by
  rw [List.map_map]
  exact List.zipIdx_map_fst k l

theorem placed_dataCell {i : ℕ} (hversion : version ∈ versions) (hi : i < (dataCells version).length) :
    (placeDataBits (functionPatterns version) bits (matrixSize version)).modules (dataCells version)[i] =
      bits.getD i false := by
  have hnodup : (dataCells version).Nodup := (nodup_zigzag hversion).filter _
  have hmem : ((dataCells version)[i], bits.getD i false) ∈
      (((zigzag (matrixSize version)).filter fun cell => !(functionPatterns version).reserved cell).zipIdx 0).map
        fun ci => (ci.1, bits.getD ci.2 false) := by
    refine List.mem_map.mpr ⟨((dataCells version)[i], i), ?_, rfl⟩
    exact List.mk_mem_zipIdx_iff_getElem?.mpr (List.getElem?_eq_getElem hi)
  rw [placeDataBits, foldl_placeDataBits]
  refine Grid.writeAll_of_mem ?_ hmem
  rw [map_fst_zipIdx]
  exact hnodup

/-! ### The mask -/

/-- A mask was tried, and the modules are masked with it. -/
def BestMask.Masked (canvas : Canvas) (best : BestMask) : Prop :=
  best.mask < 8 ∧ best.modules = applyMask canvas best.mask

theorem BestMask.masked_foldl {best : BestMask} {masks : List ℕ} (hmasks : ∀ m ∈ masks, m < 8)
    (h : best.Masked canvas) : (masks.foldl (BestMask.try canvas size) best).Masked canvas := by
  induction masks generalizing best with
  | nil => exact h
  | cons m masks ih =>
    refine ih (fun n hn => hmasks n (List.mem_cons_of_mem m hn)) ?_
    rw [BestMask.try]
    split_ifs
    · exact ⟨hmasks m List.mem_cons_self, rfl⟩
    · exact h

theorem chooseMask_masked (canvas : Canvas) (size : ℕ) : (chooseMask canvas size).Masked canvas := by
  have hrest : ∀ m ∈ (List.range 7).map (· + 1), m < 8 := by decide
  have hfirst : (BestMask.try canvas size ⟨0, canvas.modules, none⟩ 0).Masked canvas := ⟨Nat.zero_lt_succ 7, rfl⟩
  have hrange : List.range 8 = 0 :: (List.range 7).map (· + 1) := rfl
  rw [chooseMask, hrange, List.foldl_cons]
  exact BestMask.masked_foldl hrest hfirst

/-- Masking a cell twice leaves it as it was. -/
theorem unmask (h : canvas.reserved cell = false) (mask : ℕ) :
    xor (applyMask canvas mask cell) (maskCondition mask cell) = canvas.modules cell := by
  rw [applyMask, h]
  cases maskCondition mask cell <;> simp

/-! ### Format and version information -/

/-- The cells of the format bits, copy by copy. -/
def formatCells (size : ℕ) : List Cell :=
  (List.range 15).flatMap fun i => [formatCopy1Coords.getD i (0, 0), (formatCopy2Coords size).getD i (0, 0)]

def versionCells (size : ℕ) : List Cell :=
  (List.range 18).flatMap fun i =>
    let ab := (versionInfoCoords size).getD i ((0, 0), (0, 0))
    [ab.1, ab.2]

theorem formatCells_spec : ∀ v ∈ versions, (formatCells (matrixSize v)).Nodup ∧
    ∀ cell ∈ formatCells (matrixSize v), cell ∈ formatCopy1Coords ∨ cell ∈ formatCopy2Coords (matrixSize v) := by
  decide

theorem versionCells_spec : ∀ v ∈ versions, 7 ≤ v →
    (∀ cell ∈ versionCells (matrixSize v), cell ∈ (versionInfoCoords (matrixSize v)).flatMap fun ab => [ab.1, ab.2]) ∧
      ∀ cell ∈ formatCopy1Coords, cell ∉ versionCells (matrixSize v) := by
  decide

theorem map_fst_formatWrites (formatBits size : ℕ) :
    ((List.range 15).flatMap fun i =>
      [(formatCopy1Coords.getD i (0, 0), bitAt formatBits 15 i),
        ((formatCopy2Coords size).getD i (0, 0), bitAt formatBits 15 i)]).map Prod.fst = formatCells size := by
  rw [List.map_flatMap]
  rfl

theorem map_fst_versionWrites (versionBits size : ℕ) :
    ((List.range 18).flatMap fun i =>
      let ab := (versionInfoCoords size).getD i ((0, 0), (0, 0))
      [(ab.1, versionBits.testBit i), (ab.2, versionBits.testBit i)]).map Prod.fst = versionCells size := by
  rw [List.map_flatMap]
  rfl

/-- The modules of the finished code. -/
def finished (g : Grid) (version formatBits : ℕ) : Grid :=
  let modules := placeFormatInfo g formatBits (matrixSize version)
  if 7 ≤ version then placeVersionInfo modules (versionInfoBits version) (matrixSize version) else modules

/-- The information is written to reserved cells only. -/
theorem finished_of_not_reserved {g : Grid} {formatBits : ℕ} (hversion : version ∈ versions)
    (h : (functionPatterns version).reserved cell = false) : finished g version formatBits cell = g cell := by
  rw [reserved_functionPatterns, Bool.or_eq_false_iff, Bool.or_eq_false_iff, Bool.or_eq_false_iff,
    decide_eq_false_iff_not, decide_eq_false_iff_not, decide_eq_false_iff_not] at h
  obtain ⟨⟨⟨-, hcopy1⟩, hcopy2⟩, hinfo⟩ := h
  have hformat : placeFormatInfo g formatBits (matrixSize version) cell = g cell := by
    refine Grid.writeAll_of_not_mem fun hmem => ?_
    rw [map_fst_formatWrites] at hmem
    rcases (formatCells_spec version hversion).2 cell hmem with hmem | hmem
    · exact hcopy1 hmem
    · exact hcopy2 hmem
  rw [finished]
  split_ifs with hseven
  · refine (Grid.writeAll_of_not_mem fun hmem => ?_).trans hformat
    rw [map_fst_versionWrites] at hmem
    exact hinfo ⟨hseven, (versionCells_spec version hversion hseven).1 cell hmem⟩
  · exact hformat

theorem finished_formatCell {g : Grid} {formatBits i : ℕ} (hversion : version ∈ versions) (hi : i < 15) :
    finished g version formatBits (formatCopy1Coords.getD i (0, 0)) = bitAt formatBits 15 i := by
  have hcell : formatCopy1Coords.getD i (0, 0) ∈ formatCopy1Coords := by
    rw [List.getD_eq_getElem _ _ (show i < formatCopy1Coords.length from hi)]
    exact List.getElem_mem _
  have hformat : placeFormatInfo g formatBits (matrixSize version) (formatCopy1Coords.getD i (0, 0)) =
      bitAt formatBits 15 i := by
    refine Grid.writeAll_of_mem ?_ (List.mem_flatMap.mpr ⟨i, List.mem_range.mpr hi, List.mem_cons_self⟩)
    rw [map_fst_formatWrites]
    exact (formatCells_spec version hversion).1
  rw [finished]
  split_ifs with hseven
  · refine (Grid.writeAll_of_not_mem fun hmem => ?_).trans hformat
    rw [map_fst_versionWrites] at hmem
    exact (versionCells_spec version hversion hseven).2 _ hcell hmem
  · exact hformat

/-- Level and mask are found in their fifteen bits. -/
theorem formatInfoBits_spec : ∀ level : EcLevel, ∀ mask < 8,
    bchRemainder (formatInfoBits level mask % 2 ^ 15 ^^^ formatMask) formatGenerator 10 = 0 ∧
      ((formatInfoBits level mask % 2 ^ 15 ^^^ formatMask) >>> 10) >>> 3 = ecLevelBits level ∧
      ((formatInfoBits level mask % 2 ^ 15 ^^^ formatMask) >>> 10) % 8 = mask := by
  decide +kernel

theorem readFormat_of_bits {g : Grid} (hmask : mask < 8)
    (h : ∀ i < 15, g (formatCopy1Coords.getD i (0, 0)) = bitAt (formatInfoBits ecLevel mask) 15 i) :
    readFormat g = some (ecLevel, mask) := by
  have hbits : formatCopy1Coords.map g = toBits 15 (formatInfoBits ecLevel mask) := by
    have hlength : formatCopy1Coords.length = 15 := rfl
    refine List.ext_getElem (by simp [hlength]) fun i hi hi' => ?_
    rw [length_toBits] at hi'
    rw [List.getElem_map, ← List.getD_eq_getElem _ (0, 0), h i hi', bitAt]
    simp [toBits]
  obtain ⟨hremainder, hlevel, hmask'⟩ := formatInfoBits_spec ecLevel mask hmask
  rw [readFormat, hbits, ofBits_toBits, if_pos hremainder, hlevel, hmask']
  cases ecLevel <;> rfl

/-! ### The matrix -/

/-- What is placed and masked. -/
def masked (bits : List Bool) (version : ℕ) : BestMask :=
  chooseMask (placeDataBits (functionPatterns version) bits (matrixSize version)) (matrixSize version)

theorem matrix_eq (bits : List Bool) (version : ℕ) (ecLevel : EcLevel) :
    (buildMatrix bits version ecLevel).matrix =
      (finished (masked bits version).modules version (formatInfoBits ecLevel (masked bits version).mask)).rows
        (matrixSize version) := rfl

theorem readDataBits_finished {g : Grid} (formatBits : ℕ) (hversion : version ∈ versions)
    (hg : ∀ cell ∈ dataCells version, g cell = finished (masked bits version).modules version formatBits cell) :
    readDataBits g version (masked bits version).mask =
      (List.range (dataCells version).length).map fun i => bits.getD i false := by
  refine List.ext_getElem (by simp [readDataBits]) fun i hi hi' => ?_
  have hlength : i < (dataCells version).length := by simpa [readDataBits] using hi
  have hmem := List.getElem_mem hlength
  have hfree : (functionPatterns version).reserved (dataCells version)[i] = false := by
    simpa using (List.mem_filter.mp hmem).2
  have hmasked : (masked bits version).modules =
      applyMask (placeDataBits (functionPatterns version) bits (matrixSize version)) (masked bits version).mask :=
    (chooseMask_masked _ _).2
  have hread := unmask (show (placeDataBits (functionPatterns version) bits (matrixSize version)).reserved _ = false from hfree)
    (masked bits version).mask
  simp only [readDataBits, List.getElem_map, List.getElem_range]
  rw [hg _ hmem, finished_of_not_reserved hversion hfree, hmasked]
  exact hread.trans (placed_dataCell hversion hlength)

/-- Bits that fit are read back, with the remainder bits after them. -/
theorem map_getD_range {n : ℕ} (h : bits.length ≤ n) :
    (List.range n).map (fun i => bits.getD i false) = bits ++ List.replicate (n - bits.length) false := by
  refine List.ext_getElem (by simp; omega) fun i hi hi' => ?_
  rw [List.getElem_map, List.getElem_range, List.getElem_append, List.getD_eq_getElem?_getD]
  split_ifs with hlt
  · rw [List.getElem?_eq_getElem hlt, Option.getD_some]
  · rw [List.getElem?_eq_none (Nat.le_of_not_lt hlt), List.getElem_replicate, Option.getD_none]

theorem readCodewords_of_le {codewords : List Codeword} (rest : List Bool) {count : ℕ} (h : codewords.length ≤ count) :
    ∃ more, readCodewords (codewordBits codewords ++ rest) count = codewords ++ more := by
  obtain ⟨extra, rfl⟩ := Nat.exists_eq_add_of_le h
  have hread := readCodewords_codewordBits codewords rest
  rw [readCodewords] at hread
  rw [readCodewords, List.range_add, List.map_append, hread]
  exact ⟨_, rfl⟩

/-- The matrix of bits that make up codewords decodes as the codewords do. -/
theorem decodeQr_buildMatrix {codewords : List Codeword} (hversion : version ∈ versions)
    (hlength : codewords.length = totalCodewords (capacity version ecLevel)) :
    ∃ more, decodeQr (buildMatrix (codewordBits codewords) version ecLevel).matrix =
      decodeCodewords version ecLevel (codewords ++ more) := by
  have hroom : (codewordBits codewords).length ≤ (dataCells version).length := by
    rw [length_codewordBits, hlength]
    exact length_dataCells hversion ecLevel
  rw [matrix_eq]
  generalize hfinal : finished (masked (codewordBits codewords) version).modules version
    (formatInfoBits ecLevel (masked (codewordBits codewords) version).mask) = final
  have hsize : 9 ≤ matrixSize version := by
    rw [matrixSize]
    omega
  have hnumber : (matrixSize version - 17) / 4 = version := by
    rw [matrixSize]
    omega
  have hformat : readFormat (Grid.ofRows (final.rows (matrixSize version))) =
      some (ecLevel, (masked (codewordBits codewords) version).mask) := by
    have hsmall : ∀ i < 15, (formatCopy1Coords.getD i (0, 0)).1 < 9 ∧ (formatCopy1Coords.getD i (0, 0)).2 < 9 := by
      decide
    refine readFormat_of_bits (chooseMask_masked _ _).1 fun i hi => ?_
    obtain ⟨hr, hc⟩ := hsmall i hi
    rw [← finished_formatCell hversion hi (g := (masked (codewordBits codewords) version).modules), hfinal]
    exact Grid.ofRows_rows (hr.trans_le hsize) (hc.trans_le hsize)
  have hdata : readDataBits (Grid.ofRows (final.rows (matrixSize version))) version
      (masked (codewordBits codewords) version).mask =
        codewordBits codewords ++ List.replicate ((dataCells version).length - (codewordBits codewords).length) false := by
    rw [← map_getD_range hroom]
    refine readDataBits_finished (formatInfoBits ecLevel (masked (codewordBits codewords) version).mask) hversion fun cell hcell => ?_
    obtain ⟨hr, hc⟩ := zigzag_lt hversion (List.mem_filter.mp hcell).1
    rw [hfinal]
    exact Grid.ofRows_rows hr hc
  have hshape : version ∈ versions ∧ matrixSize version = matrixSize version ∧
      ∀ row ∈ final.rows (matrixSize version), row.length = matrixSize version :=
    ⟨hversion, rfl, fun row hrow => Grid.length_of_mem_rows hrow⟩
  have hcount : codewords.length ≤ (codewordBits codewords ++
      List.replicate ((dataCells version).length - (codewordBits codewords).length) false).length / 8 := by
    rw [List.length_append, length_codewordBits]
    omega
  obtain ⟨more, hmore⟩ := readCodewords_of_le
    (List.replicate ((dataCells version).length - (codewordBits codewords).length) false) hcount
  refine ⟨more, ?_⟩
  rw [decodeQr, Grid.length_rows, hnumber, if_pos hshape, hformat, Option.bind_some, hdata]
  exact congrArg (decodeCodewords version ecLevel) hmore

/-! ### Versions -/

variable {byteLength : ℕ}

/-- The smallest version at level M, or at level L when none fits at level M. -/
def IsSelected (byteLength version : ℕ) (ecLevel : EcLevel) : Prop :=
  version ∈ versions ∧ fits byteLength version ecLevel = true ∧
    (∀ smaller ∈ versions, smaller < version → fits byteLength smaller ecLevel = false) ∧
    (ecLevel = .l → ∀ v ∈ versions, fits byteLength v .m = false)

/-- The versions of one level are tried from the smallest on. -/
theorem find_fits (h : (versions.find? fun v => fits byteLength v ecLevel) = some version) :
    version ∈ versions ∧ fits byteLength version ecLevel = true ∧
      ∀ smaller ∈ versions, smaller < version → fits byteLength smaller ecLevel = false := by
  obtain ⟨hfits, hmem, hsmaller⟩ := List.find?_range'_eq_some.mp h
  refine ⟨hmem, hfits, fun smaller hsmall hlt => ?_⟩
  have hnot := hsmaller smaller (List.mem_range'_1.mp hsmall).1 hlt
  simpa using hnot

theorem isSelected_of_select (h : selectVersionAndEcLevel byteLength = some (version, ecLevel)) :
    IsSelected byteLength version ecLevel := by
  rw [selectVersionAndEcLevel, List.findSome?_cons] at h
  cases hm : versions.find? fun v => fits byteLength v .m with
  | some v =>
    rw [hm] at h
    obtain ⟨rfl, rfl⟩ : v = version ∧ EcLevel.m = ecLevel := by simpa using h
    obtain ⟨hmem, hfits, hsmaller⟩ := find_fits hm
    exact ⟨hmem, hfits, hsmaller, fun hl => by cases hl⟩
  | none =>
    cases hl : versions.find? fun v => fits byteLength v .l with
    | none =>
      rw [hm, Option.map_none, List.findSome?_cons, hl] at h
      cases h
    | some v =>
      rw [hm, Option.map_none, List.findSome?_cons, hl] at h
      obtain ⟨rfl, rfl⟩ : v = version ∧ EcLevel.l = ecLevel := by simpa using h
      obtain ⟨hmem, hfits, hsmaller⟩ := find_fits hl
      exact ⟨hmem, hfits, hsmaller, fun _ v hv => by simpa using List.find?_eq_none.mp hm v hv⟩

/-- What fits anywhere fits the largest version at level L. -/
theorem fits_largest : ∀ v ∈ versions, ∀ level : EcLevel,
    requiredDataBits 10 byteLength ≤ (capacity 10 .l).totalDataCodewords * 8 ∨ fits byteLength v level = false := by
  intro v hv level
  by_cases hfits : fits byteLength v level = true
  · have hroom : ∀ v ∈ versions, ∀ level : EcLevel,
        (capacity v level).totalDataCodewords * 8 + countBits 10 ≤
          (capacity 10 .l).totalDataCodewords * 8 + countBits v := by
      decide
    have hle := hroom v hv level
    rw [fits, decide_eq_true_eq, requiredDataBits] at hfits
    left
    rw [requiredDataBits]
    omega
  · exact Or.inr (Bool.eq_false_iff.mpr hfits)

theorem select_eq_none : selectVersionAndEcLevel byteLength = none ↔ fits byteLength 10 .l = false := by
  constructor
  · intro h
    simp only [selectVersionAndEcLevel, List.findSome?_eq_none_iff, Option.map_eq_none_iff] at h
    have hl := List.find?_eq_none.mp (h .l (by simp)) 10 (by decide)
    simpa using hl
  · intro h
    simp only [selectVersionAndEcLevel, List.findSome?_eq_none_iff, Option.map_eq_none_iff]
    intro level _
    refine List.find?_eq_none.mpr fun v hv => ?_
    rcases fits_largest v hv level with hfits | hnot
    · rw [fits, decide_eq_false_iff_not] at h
      exact absurd hfits h
    · rw [hnot]
      decide

/-! ### Codes -/

/-- The code of a text gives back the bytes of the text, at the smallest version of the
preferred level; there is none exactly when the bytes do not fit the largest version. -/
theorem decodeQr_encodeQr (text : List (BitVec 16)) :
    (encodeQr text = none ↔ fits (encodeUtf8 text).length 10 .l = false) ∧
      ∀ code, encodeQr text = some code → decodeQr code.matrix = some (encodeUtf8 text) ∧
        ∃ ecLevel, IsSelected (encodeUtf8 text).length code.version ecLevel := by
  constructor
  · rw [encodeQr, encodeBytes, Option.map_eq_none_iff, select_eq_none]
  · intro code h
    obtain ⟨⟨version, ecLevel⟩, hselect, rfl⟩ := Option.map_eq_some_iff.mp h
    have hselected := isSelected_of_select hselect
    obtain ⟨codewords, hbits, hlength, hread⟩ := codewords_read hselected.1 hselected.2.1
    obtain ⟨more, hdecode⟩ := decodeQr_buildMatrix hselected.1 hlength
    rw [hbits]
    exact ⟨hdecode.trans (hread more), ecLevel, hselected⟩

/-- A text of two letters. -/
theorem decodeQr_encodeQr_letters : ∃ code, encodeQr [104, 105] = some code ∧
    decodeQr code.matrix = some [104, 105] := by
  have hbytes : encodeUtf8 [104, 105] = [104, 105] := by decide
  cases hcode : encodeQr [104, 105] with
  | none =>
    have hfits : fits (encodeUtf8 [104, 105]).length 10 .l = true := by decide
    rw [(decodeQr_encodeQr [104, 105]).1.mp hcode] at hfits
    cases hfits
  | some code => exact ⟨code, rfl, hbytes ▸ ((decodeQr_encodeQr [104, 105]).2 code hcode).1⟩

/-- Fifteen letters fit version 1 at level L, and their code has version 2. -/
theorem encodeQr_version_two : fits (encodeUtf8 (List.replicate 15 97)).length 1 .l = true ∧
    (encodeQr (List.replicate 15 97)).map QrCode.version = some 2 := by
  have hselect : (selectVersionAndEcLevel (encodeUtf8 (List.replicate 15 97)).length).map Prod.fst = some 2 := by
    decide
  refine ⟨by decide, ?_⟩
  rw [encodeQr, encodeBytes, Option.map_map]
  exact hselect

end Arald
