import Mathlib

/-!
# The tiles of a geographic box

The grid of `geo-tile.ts`, tiles of a quarter of a degree from the north and from the antimeridian,
and the list of those that cover a box. Numbers are exact.
-/

namespace Arald

def tileCells : ℕ := 256

def tileDeg : ℚ := 1 / 4

def cellDeg : ℚ := tileDeg / tileCells

def tilesX : ℤ := 1440

def tilesY : ℤ := 720

/-- No tile reaches beyond this latitude. -/
def maxLat : ℚ := 85

def maxTilesPerBox : ℤ := 20000

structure TileIndex where
  tx : ℤ
  ty : ℤ
  deriving DecidableEq

structure GeoBox where
  south : ℚ
  west : ℚ
  north : ℚ
  east : ℚ

def validTile (t : TileIndex) : Bool :=
  if t.tx < 0 ∨ tilesX ≤ t.tx ∨ t.ty < 0 ∨ tilesY ≤ t.ty then false
  else
    let north := 90 - t.ty * tileDeg
    let south := north - tileDeg
    north ≤ maxLat && -maxLat ≤ south

/-- The `%` of numbers, with the sign of the dividend. -/
def remainder (x y : ℚ) : ℚ := if 0 ≤ x / y then x - y * ⌊x / y⌋ else x - y * ⌈x / y⌉

def wrapLon (lon : ℚ) : ℚ := remainder (remainder (lon + 180) 360 + 360) 360 - 180

/-- The tile of a point. -/
def tileOf (lat lon : ℚ) : TileIndex :=
  let gx := ⌊(wrapLon lon + 180) / cellDeg⌋
  let gy := ⌊(90 - lat) / cellDeg⌋
  ⟨⌊(gx : ℚ) / tileCells⌋, ⌊(gy : ℚ) / tileCells⌋⟩

/-- The columns from `c` on that have not been seen. -/
def columns (rows : List ℤ) : ℕ → ℤ → List ℤ → List TileIndex
  | 0, _, _ => []
  | count + 1, c, seen =>
    let tx := (c.tmod tilesX + tilesX).tmod tilesX
    if tx ∈ seen then columns rows count (c + 1) seen
    else (rows.map fun ty => ⟨tx, ty⟩).filter (fun t => validTile t) ++ columns rows count (c + 1) (tx :: seen)

/-- The integers from the first to the last one. -/
def rowsFrom (first last : ℤ) : List ℤ := (List.range (last + 1 - first).toNat).map fun i : ℕ => first + (i : ℤ)

def tilesForGeoBox (box : GeoBox) : Except String (List TileIndex) :=
  if ¬(box.south ≤ box.north ∧ box.west ≤ box.east) then throw "Riquadro geografico non valido"
  else if 360 ≤ box.east - box.west then throw "Riquadro geografico troppo largo"
  else
    let ty0 := (tileOf (min maxLat box.north) 0).ty
    let ty1 := (tileOf (max (-maxLat) box.south) 0).ty
    let c0 := ⌊(box.west + 180) / tileDeg⌋
    let c1 := ⌊(box.east + 180) / tileDeg⌋
    if maxTilesPerBox < (c1 - c0 + 1) * (ty1 - ty0 + 1) then
      throw ("Riquadro geografico troppo esteso (più di " ++ toString maxTilesPerBox ++ " tessere)")
    else return columns (rowsFrom ty0 ty1) (c1 + 1 - c0).toNat c0 []

/-! ### Rows and columns -/

section
variable {lat lon x : ℚ} {c : ℤ} {seen rows : List ℤ} {count : ℕ} {t : TileIndex}

/-- Cells first and then tiles is tiles at once. -/
theorem floor_cells (x : ℚ) : ⌊((⌊x / cellDeg⌋ : ℤ) : ℚ) / tileCells⌋ = ⌊x / tileDeg⌋ := by
  have hcells : x / cellDeg = 256 * (x / tileDeg) := by
    rw [cellDeg, tileDeg, tileCells]
    ring
  have hcast : ((tileCells : ℕ) : ℚ) = ((256 : ℤ) : ℚ) := by
    rw [tileCells]
    norm_num
  rw [hcells, hcast, eq_comm, Int.floor_eq_iff]
  have hlow := Int.floor_le (256 * (x / tileDeg))
  have hhigh := Int.lt_floor_add_one (256 * (x / tileDeg))
  generalize ⌊256 * (x / tileDeg)⌋ = cell at hlow hhigh ⊢
  have hfloor := Int.floor_le ((cell : ℚ) / (256 : ℤ))
  have hnext := Int.lt_floor_add_one ((cell : ℚ) / (256 : ℤ))
  generalize ⌊(cell : ℚ) / (256 : ℤ)⌋ = tile at hfloor hnext ⊢
  rw [le_div_iff₀ (by norm_num)] at hfloor
  rw [div_lt_iff₀ (by norm_num)] at hnext
  have hcell : cell + 1 ≤ (tile + 1) * 256 := by exact_mod_cast hnext
  have hcell' : (cell : ℚ) + 1 ≤ (tile + 1) * 256 := by exact_mod_cast hcell
  push_cast at hfloor
  constructor
  · linarith
  · linarith

/-- The remainder of a number is the number without some whole turns, and less than one. -/
theorem remainder_spec (x : ℚ) : ∃ k : ℤ, remainder x 360 = x - 360 * k ∧ -360 < remainder x 360 := by
  rw [remainder]
  split_ifs with hsign
  · refine ⟨⌊x / 360⌋, rfl, ?_⟩
    have := Int.floor_le (x / 360)
    linarith
  · refine ⟨⌈x / 360⌉, rfl, ?_⟩
    have := Int.ceil_lt_add_one (x / 360)
    linarith

/-- Taken twice, with a turn added, it is never negative. -/
theorem remainder_wrap (x : ℚ) : remainder (remainder x 360 + 360) 360 = x - 360 * ⌊x / 360⌋ := by
  obtain ⟨k, hk, hlow⟩ := remainder_spec x
  have hsign : 0 ≤ (remainder x 360 + 360) / 360 := div_nonneg (by linarith) (by norm_num)
  have hturns : (remainder x 360 + 360) / 360 = x / 360 + ((1 - k : ℤ) : ℚ) := by
    rw [hk]
    push_cast
    ring
  rw [remainder, if_pos hsign, hturns, Int.floor_add_intCast, hk]
  push_cast
  ring

theorem tileOf_eq (lat lon : ℚ) :
    tileOf lat lon = ⟨⌊(lon + 180) / tileDeg⌋ % tilesX, ⌊(90 - lat) / tileDeg⌋⟩ := by
  have hwrap : (wrapLon lon + 180) / tileDeg = (lon + 180) / tileDeg + ((-(tilesX * ⌊(lon + 180) / 360⌋) : ℤ) : ℚ) := by
    rw [wrapLon, remainder_wrap, tileDeg, tilesX]
    push_cast
    ring
  have hturns : ⌊(lon + 180) / 360⌋ = ⌊(lon + 180) / tileDeg⌋ / tilesX := by
    have hquarter : (lon + 180) / 360 = (lon + 180) / tileDeg / ((1440 : ℕ) : ℚ) := by
      rw [tileDeg]
      push_cast
      ring
    rw [hquarter, Int.floor_div_natCast]
    rfl
  rw [tileOf]
  simp only [floor_cells]
  rw [hwrap, Int.floor_add_intCast, hturns, Int.emod_def]
  rfl

theorem mem_rowsFrom {first last ty : ℤ} : ty ∈ rowsFrom first last ↔ first ≤ ty ∧ ty ≤ last := by
  rw [rowsFrom, List.mem_map]
  constructor
  · rintro ⟨i, hi, rfl⟩
    rw [List.mem_range] at hi
    omega
  · rintro ⟨hfirst, hlast⟩
    exact ⟨(ty - first).toNat, List.mem_range.mpr (by omega), by omega⟩

theorem nodup_rowsFrom (first last : ℤ) : (rowsFrom first last).Nodup := by
  refine List.Nodup.map (fun i j h => ?_) List.nodup_range
  simpa using h

theorem tmod_wrap (c : ℤ) : (c.tmod tilesX + tilesX).tmod tilesX = c % tilesX := by
  have hlow := Int.lt_tmod_of_pos c (show (0 : ℤ) < tilesX by decide)
  have hdef := Int.tmod_add_mul_tdiv c tilesX
  rw [Int.tmod_eq_emod_of_nonneg (by omega), Int.add_emod_right]
  conv_rhs => rw [← hdef]
  rw [Int.add_mul_emod_self_left]

/-- What stands in the list. -/
theorem mem_columns : t ∈ columns rows count c seen ↔
    (∃ i : ℕ, i < count ∧ t.tx = (c + i) % tilesX) ∧ t.tx ∉ seen ∧ t.ty ∈ rows ∧ validTile t = true := by
  induction count generalizing c seen with
  | zero => simp [columns]
  | succ count ih =>
    have hshift : (∃ i : ℕ, i < count + 1 ∧ t.tx = (c + i) % tilesX) ↔
        t.tx = c % tilesX ∨ ∃ i : ℕ, i < count ∧ t.tx = (c + 1 + i) % tilesX := by
      constructor
      · rintro ⟨i, hi, htx⟩
        cases i with
        | zero => exact .inl (by simpa using htx)
        | succ i => exact .inr ⟨i, by omega, by rw [htx]; push_cast; ring_nf⟩
      · rintro (htx | ⟨i, hi, htx⟩)
        · exact ⟨0, by omega, by simpa using htx⟩
        · exact ⟨i + 1, by omega, by rw [htx]; push_cast; ring_nf⟩
    rw [columns, tmod_wrap, hshift]
    by_cases hseen : c % tilesX ∈ seen
    · simp only [hseen, if_true, ih]
      constructor
      · rintro ⟨hcolumn, hrest⟩
        exact ⟨.inr hcolumn, hrest⟩
      · rintro ⟨hcolumn | hcolumn, hrest⟩
        · exact absurd (hcolumn ▸ hseen) hrest.1
        · exact ⟨hcolumn, hrest⟩
    · simp only [hseen, if_false, List.mem_append, List.mem_filter, List.mem_map, ih, List.mem_cons, not_or]
      constructor
      · rintro (⟨⟨ty, hty, rfl⟩, hvalid⟩ | ⟨hcolumn, hrest⟩)
        · exact ⟨.inl rfl, hseen, hty, hvalid⟩
        · exact ⟨.inr hcolumn, hrest.1.2, hrest.2⟩
      · rintro ⟨hcolumn, hnew, hty, hvalid⟩
        by_cases htx : t.tx = c % tilesX
        · exact .inl ⟨⟨t.ty, hty, by rw [← htx]⟩, hvalid⟩
        · exact .inr ⟨hcolumn.resolve_left htx, ⟨htx, hnew⟩, hty, hvalid⟩

theorem nodup_columns (hrows : rows.Nodup) : (columns rows count c seen).Nodup := by
  induction count generalizing c seen with
  | zero => exact List.nodup_nil
  | succ count ih =>
    rw [columns, tmod_wrap]
    split_ifs
    · exact ih
    · refine List.Nodup.append ((hrows.map fun ty ty' h => ?_).filter _) ih ?_
      · exact (TileIndex.mk.inj h).2
      · -- a column that has been listed is seen
        intro t hfirst hlater
        obtain ⟨ty, -, rfl⟩ := List.mem_map.mp (List.mem_filter.mp hfirst).1
        exact (mem_columns.mp hlater).2.1 List.mem_cons_self

/-! ### The box -/

/-- The latitudes from one bound to the other have valid rows. -/
theorem validTile_tileOf (hlow : -85 < lat) (hhigh : lat ≤ 85) (lon : ℚ) : validTile (tileOf lat lon) = true := by
  have hx := Int.emod_nonneg ⌊(lon + 180) / tileDeg⌋ (show tilesX ≠ 0 by decide)
  have hx' := Int.emod_lt_of_pos ⌊(lon + 180) / tileDeg⌋ (show 0 < tilesX by decide)
  have hfloor : 20 ≤ ⌊(90 - lat) / tileDeg⌋ := by
    rw [Int.le_floor, tileDeg]
    push_cast
    linarith
  have hfloor' : ⌊(90 - lat) / tileDeg⌋ < 700 := by
    rw [Int.floor_lt, tileDeg]
    push_cast
    linarith
  rw [tileOf_eq, validTile, if_neg (by dsimp only; rw [tilesY]; omega)]
  generalize ⌊(90 - lat) / tileDeg⌋ = ty at hfloor hfloor' ⊢
  have hty : (20 : ℚ) ≤ ty := by exact_mod_cast hfloor
  have hty' : (ty : ℚ) ≤ 699 := by exact_mod_cast Int.le_sub_one_of_lt hfloor'
  rw [tileDeg, maxLat, Bool.and_eq_true]
  exact ⟨decide_eq_true (by linarith), decide_eq_true (by linarith)⟩

/-- A list that is returned is that of the columns between the bounds. -/
theorem tilesForGeoBox_ok {box : GeoBox} {tiles : List TileIndex} (h : tilesForGeoBox box = .ok tiles) :
    tiles = columns (rowsFrom (tileOf (min maxLat box.north) 0).ty (tileOf (max (-maxLat) box.south) 0).ty)
      (⌊(box.east + 180) / tileDeg⌋ + 1 - ⌊(box.west + 180) / tileDeg⌋).toNat ⌊(box.west + 180) / tileDeg⌋ [] := by
  rw [tilesForGeoBox] at h
  split at h
  · cases h
  · split at h
    · cases h
    · dsimp only at h
      split at h
      · cases h
      · exact (Except.ok.inj h).symm

end

/-- The list of an accepted box has no tile twice and only valid ones, and it has the tile of
every point of the box, however its longitude is written. -/
theorem tilesForGeoBox_covers (box : GeoBox) (tiles : List TileIndex) (h : tilesForGeoBox box = .ok tiles) :
    tiles.Nodup ∧ (∀ t ∈ tiles, validTile t = true) ∧
      ∀ (lat lon : ℚ) (turns : ℤ), -85 < lat → lat ≤ 85 → box.south ≤ lat → lat ≤ box.north →
        box.west ≤ lon + 360 * turns → lon + 360 * turns ≤ box.east → tileOf lat lon ∈ tiles := by
  have htiles := tilesForGeoBox_ok h
  refine ⟨?_, ?_, ?_⟩
  · rw [htiles]
    exact nodup_columns (nodup_rowsFrom _ _)
  · intro t ht
    rw [htiles, mem_columns] at ht
    exact ht.2.2.2
  · intro lat lon turns hlow hhigh hsouth hnorth hwest heast
    have hvalid := validTile_tileOf hlow hhigh lon
    have hrow : (tileOf lat lon).ty ∈ rowsFrom (tileOf (min maxLat box.north) 0).ty (tileOf (max (-maxLat) box.south) 0).ty := by
      rw [mem_rowsFrom, tileOf_eq, tileOf_eq, tileOf_eq]
      dsimp only
      constructor
      · refine Int.floor_le_floor (div_le_div_of_nonneg_right ?_ (by rw [tileDeg]; norm_num))
        have := le_min (show lat ≤ maxLat from hhigh) hnorth
        linarith
      · refine Int.floor_le_floor (div_le_div_of_nonneg_right ?_ (by rw [tileDeg]; norm_num))
        have := max_le (show -maxLat ≤ lat from hlow.le) hsouth
        linarith
    have hturns : ⌊(lon + 360 * turns + 180) / tileDeg⌋ = ⌊(lon + 180) / tileDeg⌋ + tilesX * turns := by
      rw [← Int.floor_add_intCast, tileDeg, tilesX]
      push_cast
      ring_nf
    have hfirst : ⌊(box.west + 180) / tileDeg⌋ ≤ ⌊(lon + 360 * turns + 180) / tileDeg⌋ :=
      Int.floor_le_floor (div_le_div_of_nonneg_right (by linarith) (by rw [tileDeg]; norm_num))
    have hlast : ⌊(lon + 360 * turns + 180) / tileDeg⌋ ≤ ⌊(box.east + 180) / tileDeg⌋ :=
      Int.floor_le_floor (div_le_div_of_nonneg_right (by linarith) (by rw [tileDeg]; norm_num))
    rw [htiles, mem_columns]
    refine ⟨⟨(⌊(lon + 360 * turns + 180) / tileDeg⌋ - ⌊(box.west + 180) / tileDeg⌋).toNat, by omega, ?_⟩, nofun, hrow,
      hvalid⟩
    rw [Int.toNat_of_nonneg (by omega), add_sub_cancel, hturns, tileOf_eq, Int.add_mul_emod_self_left]

/-- A box over the antimeridian, and a point of it whose longitude is written from the other side. -/
theorem tilesForGeoBox_covers_antimeridian :
    tileOf 45 (-719 / 4) ∈ ([⟨1439, 179⟩, ⟨1439, 180⟩, ⟨0, 179⟩, ⟨0, 180⟩, ⟨1, 179⟩, ⟨1, 180⟩] : List TileIndex) := by
  have htiles : tilesForGeoBox ⟨899 / 20, 1799 / 10, 901 / 20, 1803 / 10⟩ =
      .ok [⟨1439, 179⟩, ⟨1439, 180⟩, ⟨0, 179⟩, ⟨0, 180⟩, ⟨1, 179⟩, ⟨1, 180⟩] := by decide +kernel
  refine (tilesForGeoBox_covers _ _ htiles).2.2 45 (-719 / 4) 1 ?_ ?_ ?_ ?_ ?_ ?_ <;> norm_num

end Arald
