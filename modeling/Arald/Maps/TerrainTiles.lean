import Arald.Foundations.JsonText
import Arald.Maps.GeoTiles
import Arald.Maps.TerrainGrids

/-!
# Tiles of the terrain

The file of a tile: a mark, the length of a header in JSON, the heights, and the classes of the
cells.
-/

namespace Arald

open Foundations

structure GeoTile extends TileIndex where
  sources : List String
  elevation : List Height
  /-- Indices into the classes. -/
  cover : Buffer
  deriving DecidableEq

def tileMagic : Buffer := [0x41, 0x52, 0x54, 0x47]

/-- The cells of a tile. -/
def tileSize : ℕ := tileCells * tileCells

def tileVersion : ℤ := 1

def maxTileHeader : ℕ := 100000

def GeoTile.header (t : GeoTile) : JsValue :=
  .obj [("version", .ofInt tileVersion), ("tx", .ofInt t.tx), ("ty", .ofInt t.ty), ("sources", .ofStrings t.sources)]

section
variable {Text : Type*} (rt : JsonRuntime Text)

def encodeTile (t : GeoTile) : Except Fault Buffer := do
  if t.elevation.length ≠ tileSize ∨ t.cover.length ≠ tileSize then
    throw (.thrown "Tessera incoerente: servono 256×256 celle")
  return terrainFile tileMagic (rt.write t.header) tileCells tileCells t.elevation t.cover

def readTileIndex (h : JsValue) : Except Fault TileIndex :=
  match (h.prop "tx").integer?, (h.prop "ty").integer? with
  | some tx, some ty => if validTile ⟨tx, ty⟩ then .ok ⟨tx, ty⟩ else .error (.thrown "Indice di tessera non valido")
  | _, _ => .error (.thrown "Indice di tessera non valido")

/-- The header of a tile that is not of another version. -/
def readTileHeader (text : Buffer) : Except Fault JsValue :=
  match rt.read text with
  | none => .error (.thrown "Intestazione della tessera non leggibile")
  | some h =>
    if h.isObject = false ∨ (h.prop "version").integer? ≠ some tileVersion then
      .error (.thrown "Versione della tessera non supportata")
    else .ok h

def decodeTile (bytes : Buffer) : Except Fault GeoTile := do
  let headLen ← readHeadLen tileMagic maxTileHeader "Non è una tessera di terreno ARALD"
    "Intestazione della tessera non valida" bytes
  if bytes.length ≠ 8 + headLen + 3 * tileSize then throw (.thrown "Tessera troncata o con dati in eccesso")
  let h ← readTileHeader rt (subarray bytes 8 (8 + headLen))
  let tile ← readTileIndex h
  let heights ← decodeHeights bytes (8 + headLen) tileCells tileCells
  let cover ← readCover bytes heights.off tileSize "Tessera: classe di suolo sconosciuta"
  return ⟨tile, (h.prop "sources").strings.take 20, heights.elevation, cover⟩

end

/-- Two whole grids, and classes that exist, for a tile of the world. -/
structure GeoTile.WellFormed (t : GeoTile) : Prop where
  valid : validTile t.toTileIndex = true
  length_elevation : t.elevation.length = tileSize
  length_cover : t.cover.length = tileSize
  cover_lt : ∀ code ∈ t.cover, code.toNat < coverClasses

section
variable {Text : Type*} {rt : JsonRuntime Text} {t : GeoTile}

theorem readTileHeader_write (h : rt.Inverts t.header) : readTileHeader rt (rt.write t.header) = .ok t.header := by
  rw [readTileHeader, rt.read_write h]
  rfl

theorem readTileIndex_header (h : validTile t.toTileIndex = true) : readTileIndex t.header = .ok t.toTileIndex := if_pos h

/-- A tile is read back from its file. -/
theorem decodeTile_encodeTile (ht : t.WellFormed) (hsources : t.sources.length ≤ 20)
    (hhead : (rt.write t.header).length ≤ maxTileHeader) (hjson : rt.Inverts t.header) :
    encodeTile rt t >>= decodeTile rt = .ok t := by
  have hwritten := readTileHeader_write hjson
  obtain ⟨last, hread⟩ := decodeHeights_terrainFile tileMagic rfl (rt.write t.header) ht.length_elevation t.cover
  have hclasses := readCover_terrainFile tileMagic rfl (rt.write t.header) ht.length_elevation ht.cover_lt
    "Tessera: classe di suolo sconosciuta"
  have hlength := length_terrainFile tileMagic rfl (rt.write t.header) ht.length_elevation t.cover
  rw [ht.length_cover] at hclasses hlength
  rw [encodeTile, if_neg (by simp [ht.length_elevation, ht.length_cover])]
  dsimp only [bind, Except.bind, pure, Except.pure]
  rw [decodeTile, readHeadLen_terrainFile rfl hhead (by decide), ok_bind,
    if_neg (by rw [hlength, tileSize]; omega), subarray_terrainFile rfl, hwritten, ok_bind,
    readTileIndex_header ht.valid, ok_bind, hread, ok_bind, hclasses, ok_bind]
  have hstrings : (t.header.prop "sources").strings.take 20 = t.sources := by
    rw [show t.header.prop "sources" = .ofStrings t.sources from rfl, JsValue.strings_ofStrings,
      List.take_of_length_le hsources]
  rw [hstrings]
  rfl
theorem ensures_readTileHeader (rt : JsonRuntime Text) (text : Buffer) :
    Ensures Fault.IsThrown (fun _ => True) (readTileHeader rt text) := by
  rw [readTileHeader]
  split
  · trivial
  · split_ifs <;> trivial

theorem ensures_readTileIndex (h : JsValue) :
    Ensures Fault.IsThrown (fun tile => validTile tile = true) (readTileIndex h) := by
  rw [readTileIndex]
  split
  · split_ifs with hvalid
    · exact hvalid
    · trivial
  · trivial

/-- Whatever the bytes are, a tile that is returned is well formed, and nothing outside is read. -/
theorem ensures_decodeTile (rt : JsonRuntime Text) (bytes : Buffer) :
    Ensures Fault.IsThrown GeoTile.WellFormed (decodeTile rt bytes) := by
  rw [decodeTile]
  apply Ensures.bind ensures_readHeadLen
  intro headLen _
  apply Ensures.ite
  · exact fun _ => trivial
  intro hlength
  have hbytes : 8 + headLen + 3 * (tileCells * tileCells) = bytes.length := (not_not.mp hlength).symm
  apply Ensures.bind (ensures_readTileHeader rt _)
  intro h _
  apply Ensures.bind (ensures_readTileIndex h)
  intro tile htile
  apply Ensures.bind (ensures_decodeHeights (by omega))
  intro heights hheights
  have hcover : heights.off + tileSize ≤ bytes.length := by
    rw [hheights.2, tileSize]
    omega
  apply Ensures.bind (ensures_readCover hcover)
  intro cover hclasses
  exact Ensures.pure ⟨htile, hheights.1, hclasses.1, hclasses.2⟩

end

end Arald
