import Arald.Foundations.Utf8Decoding
import Arald.Maps.TerrainTiles

/-!
# Packs of terrain

A pack is the grid of one area with the header that places it. Its file is laid out like that of
a tile, with a size that the header says.
-/

namespace Arald

open Foundations

/-- The origin of local coordinates. -/
structure LocalFrame where
  lat0 : ℚ
  lon0 : ℚ
  deriving DecidableEq

structure PackHeader where
  id : String
  name : String
  frame : LocalFrame
  cellM : ℚ
  cols : ℕ
  rows : ℕ
  minX : ℚ
  maxY : ℚ
  sources : List String
  attribution : String
  clutterHeightRelief : Option Bool
  deriving DecidableEq

structure TerrainPack where
  header : PackHeader
  elevation : List Height
  cover : Buffer
  deriving DecidableEq

def packMagic : Buffer := [0x41, 0x52, 0x54, 0x50]

def packVersion : ℤ := 1

def maxPackCells : ℕ := 40000000

def maxPackHeader : ℕ := 1000000

def LocalFrame.toJs (frame : LocalFrame) : JsValue :=
  .obj [("lat0", .num (.finite frame.lat0)), ("lon0", .num (.finite frame.lon0))]

/-- The value that is written as JSON: what is absent is left out. -/
def PackHeader.toJs (h : PackHeader) : JsValue :=
  .obj ([("version", .ofInt packVersion), ("id", .str h.id), ("name", .str h.name), ("frame", h.frame.toJs),
    ("cellM", .num (.finite h.cellM)), ("cols", .ofInt h.cols), ("rows", .ofInt h.rows),
    ("minX", .num (.finite h.minX)), ("maxY", .num (.finite h.maxY)), ("sources", .ofStrings h.sources),
    ("attribution", .str h.attribution)] ++
    (h.clutterHeightRelief.map fun relief => ("clutterHeightRelief", JsValue.bool relief)).toList)

/-! ### The codec -/

section
variable {Text : Type*} (rt : JsonRuntime Text)

def encodePack (pack : TerrainPack) : Except Fault Buffer := do
  let n := pack.header.cols * pack.header.rows
  if pack.elevation.length ≠ n ∨ pack.cover.length ≠ n then
    throw (.thrown "Pacchetto incoerente: la dimensione dei dati non corrisponde alla griglia")
  return terrainFile packMagic (rt.write pack.header.toJs) pack.header.rows pack.header.cols pack.elevation pack.cover

def readFrame (frame : JsValue) : Option LocalFrame := do
  let lat0 ← (frame.prop "lat0").finite?
  let lon0 ← (frame.prop "lon0").finite?
  if |lat0| ≤ 85 ∧ |lon0| ≤ 180 then some ⟨lat0, lon0⟩ else none

def positive? (v : JsValue) : Option ℕ := v.integer?.bind fun n => if 0 < n then some n.toNat else none

/-- The size of the cells, the columns and rows, and the corner. -/
def readGrid (h : JsValue) : Option (ℚ × ℕ × ℕ × ℚ × ℚ) := do
  let cellM ← (h.prop "cellM").finite?
  let cols ← positive? (h.prop "cols")
  let rows ← positive? (h.prop "rows")
  let minX ← (h.prop "minX").finite?
  let maxY ← (h.prop "maxY").finite?
  if 0 < cellM then some (cellM, cols, rows, minX, maxY) else none

def readIdentity (h : JsValue) : Option (String × String × LocalFrame) := do
  let id ← (h.prop "id").string?
  let name ← (h.prop "name").string?
  let frame ← readFrame (h.prop "frame")
  some (id, name, frame)

/-- The checks of the header, in their order, and what is kept of it. -/
def checkPackHeader (h : JsValue) : Except Fault PackHeader :=
  if h.isObject = false ∨ (h.prop "version").integer? ≠ some packVersion then
    .error (.thrown "Versione del pacchetto non supportata")
  else
    match readIdentity h with
    | none => .error (.thrown "Pacchetto: identificativo o origine non validi")
    | some (id, name, frame) =>
      match readGrid h with
      | none => .error (.thrown "Pacchetto: griglia non valida")
      | some (cellM, cols, rows, minX, maxY) =>
        .ok ⟨id, name, frame, cellM, cols, rows, minX, maxY, (h.prop "sources").strings,
          (h.prop "attribution").string?.getD "",
          if (h.prop "clutterHeightRelief").isTrue then some true else none⟩

def readPackHeader (text : Buffer) : Except Fault PackHeader :=
  match rt.read text with
  | none => .error (.thrown "Intestazione del pacchetto non leggibile")
  | some h => checkPackHeader h

/-- The size of the grid, once it is neither too large nor another one than that of the data. -/
def checkPackSize (bytes : Buffer) (headLen n : ℕ) : Except Fault Unit :=
  if maxPackCells < n then
    .error (.thrown s!"Pacchetto troppo grande ({rt.numeral n} celle, massimo {rt.numeral maxPackCells})")
  else if bytes.length ≠ 8 + headLen + 3 * n then .error (.thrown "Pacchetto troncato o con dati in eccesso")
  else .ok ()

def decodePack (bytes : Buffer) : Except Fault TerrainPack := do
  let headLen ← readHeadLen packMagic maxPackHeader "Non è un pacchetto di terreno ARALD"
    "Intestazione del pacchetto non valida" bytes
  let header ← readPackHeader rt (subarray bytes 8 (8 + headLen))
  let n := header.cols * header.rows
  checkPackSize rt bytes headLen n
  let heights ← decodeHeights bytes (8 + headLen) header.rows header.cols
  let cover ← readCover bytes heights.off n "Pacchetto: classe di suolo sconosciuta"
  return ⟨header, heights.elevation, cover⟩

end

/-! ### Valid packs -/

/-- What the decoder asks of a header. -/
structure PackHeader.Valid (h : PackHeader) : Prop where
  lat0 : |h.frame.lat0| ≤ 85
  lon0 : |h.frame.lon0| ≤ 180
  cellM : 0 < h.cellM
  cols : 0 < h.cols
  rows : 0 < h.rows
  cells : h.cols * h.rows ≤ maxPackCells

structure TerrainPack.WellFormed (p : TerrainPack) : Prop where
  valid : p.header.Valid
  length_elevation : p.elevation.length = p.header.rows * p.header.cols
  length_cover : p.cover.length = p.header.rows * p.header.cols
  cover_lt : ∀ code ∈ p.cover, code.toNat < coverClasses

/-- The header as it is read back: a relief that is `false` becomes absent. -/
def PackHeader.read (h : PackHeader) : PackHeader :=
  { h with clutterHeightRelief := if h.clutterHeightRelief = some true then some true else none }

theorem PackHeader.read_eq_self {h : PackHeader} (hrelief : h.clutterHeightRelief ≠ some false) : h.read = h := by
  obtain ⟨_, _, _, _, _, _, _, _, _, _, relief⟩ := h
  rcases relief with _ | _ | _
  · rfl
  · exact absurd rfl hrelief
  · rfl

section
variable {Text : Type*} {rt : JsonRuntime Text} {h : PackHeader} {p : TerrainPack}

theorem readFrame_toJs {frame : LocalFrame} (hlat : |frame.lat0| ≤ 85) (hlon : |frame.lon0| ≤ 180) :
    readFrame frame.toJs = some frame := if_pos ⟨hlat, hlon⟩

theorem positive?_ofInt {n : ℕ} (hn : 0 < n) : positive? (.ofInt n) = some n := by
  rw [positive?, JsValue.integer?_ofInt, Option.bind_some, if_pos (by exact_mod_cast hn), Int.toNat_natCast]

theorem checkPackHeader_toJs (hvalid : h.Valid) : checkPackHeader h.toJs = .ok h.read := by
  have hidentity : readIdentity h.toJs = some (h.id, h.name, h.frame) := by
    change (readFrame h.frame.toJs).bind _ = _
    rw [readFrame_toJs hvalid.lat0 hvalid.lon0, Option.bind_some]
  have hgrid : readGrid h.toJs = some (h.cellM, h.cols, h.rows, h.minX, h.maxY) := by
    change (positive? (.ofInt h.cols)).bind (fun cols => (positive? (.ofInt h.rows)).bind fun rows => _) = _
    rw [positive?_ofInt hvalid.cols, Option.bind_some, positive?_ofInt hvalid.rows, Option.bind_some]
    exact if_pos hvalid.cellM
  have hsources : (h.toJs.prop "sources").strings = h.sources := JsValue.strings_ofStrings h.sources
  have hrelief : (h.toJs.prop "clutterHeightRelief").isTrue = decide (h.clutterHeightRelief = some true) := by
    rw [PackHeader.toJs]
    rcases h.clutterHeightRelief with _ | _ | _ <;> rfl
  have hversion : ¬(h.toJs.isObject = false ∨ (h.toJs.prop "version").integer? ≠ some packVersion) := by
    rintro (hobject | hversion)
    · cases hobject
    · exact hversion rfl
  rw [checkPackHeader, if_neg hversion, hidentity]
  dsimp only
  rw [hgrid]
  dsimp only
  rw [hsources, hrelief, PackHeader.read]
  simp only [decide_eq_true_eq]
  rfl

/-- A pack is read back from its file but for a relief that is `false`. -/
theorem decodePack_encodePack (hp : p.WellFormed) (hhead : (rt.write p.header.toJs).length ≤ maxPackHeader)
    (hjson : rt.Inverts p.header.toJs) :
    encodePack rt p >>= decodePack rt = .ok { p with header := p.header.read } := by
  have hread : readPackHeader rt (rt.write p.header.toJs) = .ok p.header.read := by
    rw [readPackHeader, rt.read_write hjson]
    exact checkPackHeader_toJs hp.valid
  obtain ⟨last, hheights⟩ := decodeHeights_terrainFile packMagic rfl (rt.write p.header.toJs) hp.length_elevation p.cover
  have hclasses := readCover_terrainFile packMagic rfl (rt.write p.header.toJs) hp.length_elevation hp.cover_lt
    "Pacchetto: classe di suolo sconosciuta"
  have hlength := length_terrainFile packMagic rfl (rt.write p.header.toJs) hp.length_elevation p.cover
  rw [hp.length_cover] at hclasses hlength
  have hsize : checkPackSize rt (terrainFile packMagic (rt.write p.header.toJs) p.header.rows p.header.cols p.elevation
      p.cover) (rt.write p.header.toJs).length (p.header.cols * p.header.rows) = .ok () := by
    rw [checkPackSize, if_neg (not_lt.mpr hp.valid.cells), if_neg (by rw [hlength, Nat.mul_comm p.header.cols]; omega)]
  have hgrid : ¬(p.elevation.length ≠ p.header.cols * p.header.rows ∨
      p.cover.length ≠ p.header.cols * p.header.rows) := by
    rw [hp.length_elevation, hp.length_cover, Nat.mul_comm p.header.cols]
    simp
  rw [encodePack, if_neg hgrid]
  dsimp only [bind, Except.bind, pure, Except.pure]
  rw [decodePack, readHeadLen_terrainFile rfl hhead (by decide), ok_bind, subarray_terrainFile rfl, hread, ok_bind]
  dsimp only [PackHeader.read]
  rw [hsize, ok_bind, hheights, ok_bind]
  dsimp only
  rw [Nat.mul_comm p.header.cols, hclasses, ok_bind]
  rfl

theorem readFrame_spec {v : JsValue} {frame : LocalFrame} (hread : readFrame v = some frame) :
    |frame.lat0| ≤ 85 ∧ |frame.lon0| ≤ 180 := by
  obtain ⟨lat0, -, hlat⟩ := Option.bind_eq_some_iff.mp hread
  obtain ⟨lon0, -, hlon⟩ := Option.bind_eq_some_iff.mp hlat
  split_ifs at hlon with hbounds
  cases hlon
  exact hbounds

theorem positive?_spec {v : JsValue} {n : ℕ} (hread : positive? v = some n) : 0 < n := by
  obtain ⟨m, -, hm⟩ := Option.bind_eq_some_iff.mp hread
  split_ifs at hm with hpos
  cases hm
  omega

theorem readGrid_spec {v : JsValue} {grid : ℚ × ℕ × ℕ × ℚ × ℚ} (hread : readGrid v = some grid) :
    0 < grid.1 ∧ 0 < grid.2.1 ∧ 0 < grid.2.2.1 := by
  obtain ⟨cellM, -, hcellM⟩ := Option.bind_eq_some_iff.mp hread
  obtain ⟨cols, hcols, hrest⟩ := Option.bind_eq_some_iff.mp hcellM
  obtain ⟨rows, hrows, hrest⟩ := Option.bind_eq_some_iff.mp hrest
  obtain ⟨minX, -, hrest⟩ := Option.bind_eq_some_iff.mp hrest
  obtain ⟨maxY, -, hgrid⟩ := Option.bind_eq_some_iff.mp hrest
  split_ifs at hgrid with hpos
  cases hgrid
  exact ⟨hpos, positive?_spec hcols, positive?_spec hrows⟩

theorem ensures_checkPackHeader (v : JsValue) :
    Ensures Fault.IsThrown (fun h : PackHeader => h.cols * h.rows ≤ maxPackCells → h.Valid) (checkPackHeader v) := by
  rw [checkPackHeader]
  apply Ensures.ite
  · exact fun _ => trivial
  intro _
  cases hidentity : readIdentity v with
  | none => trivial
  | some identity =>
    cases hgrid : readGrid v with
    | none => trivial
    | some grid =>
      obtain ⟨id, -, hid⟩ := Option.bind_eq_some_iff.mp hidentity
      obtain ⟨name, -, hname⟩ := Option.bind_eq_some_iff.mp hid
      obtain ⟨frame, hframe, hsome⟩ := Option.bind_eq_some_iff.mp hname
      cases hsome
      have hbounds := readFrame_spec hframe
      have hpos := readGrid_spec hgrid
      exact fun hcells => ⟨hbounds.1, hbounds.2, hpos.1, hpos.2.1, hpos.2.2, hcells⟩

theorem ensures_readPackHeader (rt : JsonRuntime Text) (text : Buffer) :
    Ensures Fault.IsThrown (fun h : PackHeader => h.cols * h.rows ≤ maxPackCells → h.Valid) (readPackHeader rt text) := by
  rw [readPackHeader]
  cases rt.read text with
  | none => trivial
  | some v => exact ensures_checkPackHeader v

theorem ensures_checkPackSize {bytes : Buffer} {headLen n : ℕ} :
    Ensures Fault.IsThrown (fun _ => n ≤ maxPackCells ∧ bytes.length = 8 + headLen + 3 * n)
      (checkPackSize rt bytes headLen n) := by
  rw [checkPackSize]
  apply Ensures.ite
  · exact fun _ => trivial
  intro hcells
  apply Ensures.ite
  · exact fun _ => trivial
  · exact fun hlength => ⟨not_lt.mp hcells, not_not.mp hlength⟩

/-- Whatever the bytes are, a pack that is returned is well formed, and nothing outside is read. -/
theorem ensures_decodePack (rt : JsonRuntime Text) (bytes : Buffer) :
    Ensures Fault.IsThrown TerrainPack.WellFormed (decodePack rt bytes) := by
  rw [decodePack]
  apply Ensures.bind ensures_readHeadLen
  intro headLen _
  apply Ensures.bind (ensures_readPackHeader rt _)
  intro header hheader
  apply Ensures.bind ensures_checkPackSize
  rintro - ⟨hcells, hlength⟩
  rw [Nat.mul_comm header.cols] at hlength
  apply Ensures.bind (ensures_decodeHeights (by omega))
  intro heights hheights
  have hcover : heights.off + header.cols * header.rows ≤ bytes.length := by
    rw [hheights.2, Nat.mul_comm header.cols]
    omega
  apply Ensures.bind (ensures_readCover hcover)
  intro cover hclasses
  exact Ensures.pure ⟨hheader hcells, hheights.1, hclasses.1.trans (Nat.mul_comm _ _), hclasses.2⟩

/-- Both codecs give back what was written, and read only files that are well formed. -/
theorem terrainCodecs_correct (rt : JsonRuntime Text) :
    (∀ t : GeoTile, t.WellFormed → t.sources.length ≤ 20 → (rt.write t.header).length ≤ maxTileHeader →
      rt.Inverts t.header → encodeTile rt t >>= decodeTile rt = .ok t) ∧
    (∀ p : TerrainPack, p.WellFormed → p.header.clutterHeightRelief ≠ some false →
      (rt.write p.header.toJs).length ≤ maxPackHeader → rt.Inverts p.header.toJs →
        encodePack rt p >>= decodePack rt = .ok p) ∧
    ∀ bytes, Ensures Fault.IsThrown GeoTile.WellFormed (decodeTile rt bytes) ∧
      Ensures Fault.IsThrown TerrainPack.WellFormed (decodePack rt bytes) := by
  refine ⟨fun t ht hsources hhead hjson => decodeTile_encodeTile ht hsources hhead hjson, ?_,
    fun bytes => ⟨ensures_decodeTile rt bytes, ensures_decodePack rt bytes⟩⟩
  intro p hp hrelief hhead hjson
  rw [decodePack_encodePack hp hhead hjson, PackHeader.read_eq_self hrelief]

end

/-! ### Two files -/

/-- A runtime that knows the text of one value. -/
def oneTextRuntime (v : JsValue) (text : List Char) : JsonRuntime (List Char) where
  stringify _ := text
  parse other := if other = text then some v else none
  encode other := other.flatMap String.utf8EncodeChar
  decode := decodeUtf8
  numeral := toString

theorem oneTextRuntime_inverts (v : JsValue) (text : List Char) : (oneTextRuntime v text).Inverts v :=
  ⟨decodeUtf8_utf8Encode text, if_pos rfl⟩

/-- Its heights are as far apart as they can be. -/
def steepTile : GeoTile where
  tx := 757
  ty := 180
  sources := ["SRTM"]
  elevation := (List.range tileSize).map fun i => if i % 2 = 0 then 0x7fff else 0x8000
  cover := List.replicate tileSize 2

def steepTileText : List Char := "\x7b\"version\":1,\"tx\":757,\"ty\":180,\"sources\":[\"SRTM\"]\x7d".toList

theorem wellFormed_steepTile : steepTile.WellFormed where
  valid := by decide +kernel
  length_elevation := by rw [steepTile, List.length_map, List.length_range]
  length_cover := List.length_replicate
  cover_lt code hcode := by
    rw [List.eq_of_mem_replicate hcode]
    decide

/-- Two cells of one row. -/
def smallPack (relief : Option Bool) : TerrainPack where
  header := ⟨"a", "A", ⟨45, 9⟩, 100, 2, 1, -100, 50, [], "", relief⟩
  elevation := [0x7fff, 0x8000]
  cover := [0, 4]

def smallPackText (relief : List Char) : List Char :=
  "\x7b\"version\":1,\"id\":\"a\",\"name\":\"A\",\"frame\":\x7b\"lat0\":45,\"lon0\":9\x7d,\"cellM\":100,".toList ++
    "\"cols\":2,\"rows\":1,\"minX\":-100,\"maxY\":50,\"sources\":[],\"attribution\":\"\"".toList ++ relief ++ ['\x7d']

theorem wellFormed_smallPack (relief : Option Bool) : (smallPack relief).WellFormed where
  valid := by constructor <;> norm_num [smallPack, maxPackCells]
  length_elevation := rfl
  length_cover := rfl
  cover_lt code hcode := by
    rcases List.mem_pair.mp hcode with rfl | rfl <;> decide

theorem terrainCodecs_correct_steep :
    steepTile.WellFormed ∧ (smallPack none).WellFormed ∧
      (encodeTile (oneTextRuntime steepTile.header steepTileText) steepTile >>=
        decodeTile (oneTextRuntime steepTile.header steepTileText) = .ok steepTile) ∧
      (encodePack (oneTextRuntime (smallPack none).header.toJs (smallPackText [])) (smallPack none) >>=
        decodePack (oneTextRuntime (smallPack none).header.toJs (smallPackText [])) = .ok (smallPack none)) :=
  ⟨wellFormed_steepTile, wellFormed_smallPack none,
    (terrainCodecs_correct (oneTextRuntime steepTile.header steepTileText)).1 steepTile wellFormed_steepTile (by decide)
      (by decide) (oneTextRuntime_inverts _ _),
    (terrainCodecs_correct (oneTextRuntime (smallPack none).header.toJs (smallPackText []))).2.1 (smallPack none)
      (wellFormed_smallPack none) (by decide) (by decide +kernel) (oneTextRuntime_inverts _ _)⟩

/-- A relief that is `false` is absent in what is read back. -/
theorem decodePack_encodePack_relief :
    let pack := smallPack (some false)
    let rt := oneTextRuntime pack.header.toJs (smallPackText ",\"clutterHeightRelief\":false".toList)
    pack.WellFormed ∧ (rt.write pack.header.toJs).length ≤ maxPackHeader ∧ rt.Inverts pack.header.toJs ∧
      encodePack rt pack >>= decodePack rt ≠ .ok pack := by
  have hhead : ((oneTextRuntime (smallPack (some false)).header.toJs
      (smallPackText ",\"clutterHeightRelief\":false".toList)).write (smallPack (some false)).header.toJs).length ≤
        maxPackHeader := by decide +kernel
  have hread := decodePack_encodePack (wellFormed_smallPack (some false)) hhead (oneTextRuntime_inverts _ _)
  refine ⟨wellFormed_smallPack _, hhead, oneTextRuntime_inverts _ _, ?_⟩
  rw [hread]
  decide

end Arald
