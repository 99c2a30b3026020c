import Arald.Foundations.Grids
import Arald.Qr.Codewords

/-!
# The matrix

The second half of `qrcode.ts`: function patterns, the bits of the data along the zigzag,
the mask with the lowest penalty, and the format and version information.
-/

namespace Arald

open Foundations

/-! ### Format and version information -/

def formatGenerator : ℕ := 0b10100110111

def formatMask : ℕ := 0b101010000010010

def versionGenerator : ℕ := 0b1111100100101

/-- The bits from 31 down to the degree of the generator. -/
def bchRemainder (value generator generatorDegree : ℕ) : ℕ :=
  ((List.range (32 - generatorDegree)).reverse.map (· + generatorDegree)).foldl
    (fun v bit => if v.testBit bit then v ^^^ (generator <<< (bit - generatorDegree)) else v) value

def ecLevelBits : EcLevel → ℕ
  | .l => 0b01
  | .m => 0b00

def formatInfoBits (ecLevel : EcLevel) (maskPattern : ℕ) : ℕ :=
  let data5 := (ecLevelBits ecLevel <<< 3) ||| maskPattern
  ((data5 <<< 10) ||| bchRemainder (data5 <<< 10) formatGenerator 10) ^^^ formatMask

def versionInfoBits (version : ℕ) : ℕ := (version <<< 12) ||| bchRemainder (version <<< 12) versionGenerator 12

def bitAt (value totalBits index : ℕ) : Bool := value.testBit (totalBits - 1 - index)

/-! ### Function patterns -/

structure Canvas where
  modules : Grid
  reserved : Grid

/-- `modules[r][c] = dark` and `reserved[r][c] = true`. -/
def Canvas.place (canvas : Canvas) (cell : Cell) (dark : Bool) : Canvas where
  modules := canvas.modules.set cell dark
  reserved := canvas.reserved.set cell true

/-- The rounds of two nested loops. -/
def pairs {α β : Type} (rs : List α) (cs : List β) : List (α × β) := rs.flatMap fun r => cs.map fun c => (r, c)

/-- The integers from `first` on, `count` of them. -/
def integersFrom (first : ℤ) (count : ℕ) : List ℤ := (List.range count).map fun i : ℕ => first + i

def placeFinderPattern (canvas : Canvas) (topRow leftCol size : ℕ) : Canvas :=
  (pairs (integersFrom (-1) 9) (integersFrom (-1) 9)).foldl (fun canvas rc =>
    let rr : ℤ := topRow + rc.1
    let cc : ℤ := leftCol + rc.2
    if rr < 0 ∨ size ≤ rr ∨ cc < 0 ∨ size ≤ cc then canvas
    else
      let isBorder := rc.1 = 0 ∨ rc.1 = 6 ∨ rc.2 = 0 ∨ rc.2 = 6
      let isCore := (2 ≤ rc.1 ∧ rc.1 ≤ 4) ∧ 2 ≤ rc.2 ∧ rc.2 ≤ 4
      let isSeparator := rc.1 < 0 ∨ 6 < rc.1 ∨ rc.2 < 0 ∨ 6 < rc.2
      canvas.place (rr.toNat, cc.toNat) (if isSeparator then false else isBorder ∨ isCore)) canvas

def placeTimingPatterns (canvas : Canvas) (size : ℕ) : Canvas :=
  ((List.range (size - 16)).map (· + 8)).foldl (fun canvas i =>
    let canvas := if canvas.reserved (6, i) then canvas else canvas.place (6, i) (i % 2 = 0)
    if canvas.reserved (i, 6) then canvas else canvas.place (i, 6) (i % 2 = 0)) canvas

def isNearFinder (row col size : ℕ) : Bool :=
  (row ≤ 8 && col ≤ 8) || (row ≤ 8 && size - 9 ≤ col) || (size - 9 ≤ row && col ≤ 8)

def drawAlignmentPattern (canvas : Canvas) (centerRow centerCol : ℕ) : Canvas :=
  (pairs (integersFrom (-2) 5) (integersFrom (-2) 5)).foldl (fun canvas rc =>
    canvas.place (((centerRow : ℤ) + rc.1).toNat, ((centerCol : ℤ) + rc.2).toNat)
      (|rc.1| = 2 ∨ |rc.2| = 2 ∨ (rc.1 = 0 ∧ rc.2 = 0))) canvas

/-- `ALIGNMENT_COORDS`, one row a version. -/
def alignmentCoords (version : ℕ) : List ℕ :=
  [[], [6, 18], [6, 22], [6, 26], [6, 30], [6, 34], [6, 22, 38], [6, 24, 42], [6, 26, 46], [6, 28, 50]].getD
    (version - 1) []

def placeAlignmentPatterns (canvas : Canvas) (version size : ℕ) : Canvas :=
  (pairs (alignmentCoords version) (alignmentCoords version)).foldl (fun canvas rc =>
    if isNearFinder rc.1 rc.2 size then canvas else drawAlignmentPattern canvas rc.1 rc.2) canvas

def formatCopy1Coords : List Cell :=
  (List.range 6).map (fun i => (8, i)) ++ [(8, 7), (8, 8), (7, 8)] ++ (List.range 6).map fun i => (14 - (i + 9), 8)

def formatCopy2Coords (size : ℕ) : List Cell :=
  (List.range 7).map (fun i => (size - 1 - i, 8)) ++ (List.range 8).map fun i => (8, size - 15 + (i + 7))

/-- The two copies of each bit: top right, and bottom left transposed. -/
def versionInfoCoords (size : ℕ) : List (Cell × Cell) :=
  (List.range 18).map fun i => ((i / 3, size - 11 + i % 3), (size - 11 + i % 3, i / 3))

def reserveFormatInfoArea (reserved : Grid) (size : ℕ) : Grid :=
  (reserved.mark formatCopy1Coords).mark (formatCopy2Coords size)

def reserveVersionInfoArea (reserved : Grid) (size : ℕ) : Grid :=
  reserved.mark ((versionInfoCoords size).flatMap fun ab => [ab.1, ab.2])

def placeFormatInfo (modules : Grid) (formatBits size : ℕ) : Grid :=
  modules.writeAll ((List.range 15).flatMap fun i =>
    [(formatCopy1Coords.getD i (0, 0), bitAt formatBits 15 i),
      ((formatCopy2Coords size).getD i (0, 0), bitAt formatBits 15 i)])

def placeVersionInfo (modules : Grid) (versionBits size : ℕ) : Grid :=
  modules.writeAll ((List.range 18).flatMap fun i =>
    let ab := (versionInfoCoords size).getD i ((0, 0), (0, 0))
    [(ab.1, versionBits.testBit i), (ab.2, versionBits.testBit i)])

/-! ### Data -/

/-- The columns of the loop and whether they are read upward. A turn passes over column 6, and
`fuel` is the number of turns left. -/
def zigzagColumns : ℕ → ℕ → Bool → List (ℕ × Bool)
  | 0, _, _ => []
  | fuel + 1, col, upward =>
    if col = 0 then []
    else
      let col := if col = 6 then col - 1 else col
      (col, upward) :: zigzagColumns fuel (col - 2) !upward

/-- The cells in the order of the loops. -/
def zigzag (size : ℕ) : List Cell :=
  (zigzagColumns size (size - 1) true).flatMap fun column =>
    (List.range size).flatMap fun count =>
      let row := if column.2 then size - 1 - count else count
      [(row, column.1), (row, column.1 - 1)]

/-- `bitIndex` and the modules, cell by cell. -/
def placeDataBits (canvas : Canvas) (bits : List Bool) (size : ℕ) : Canvas :=
  let placed := (zigzag size).foldl (fun (s : ℕ × Grid) cell =>
    if canvas.reserved cell then s else (s.1 + 1, s.2.set cell (bits.getD s.1 false))) (0, canvas.modules)
  { canvas with modules := placed.2 }

/-! ### Masks -/

def maskCondition (mask : ℕ) (cell : Cell) : Bool :=
  let r := cell.1
  let c := cell.2
  match mask with
  | 0 => (r + c) % 2 = 0
  | 1 => r % 2 = 0
  | 2 => c % 3 = 0
  | 3 => (r + c) % 3 = 0
  | 4 => (r / 2 + c / 3) % 2 = 0
  | 5 => r * c % 2 + r * c % 3 = 0
  | 6 => (r * c % 2 + r * c % 3) % 2 = 0
  | 7 => ((r + c) % 2 + r * c % 3) % 2 = 0
  | _ => false

def applyMask (canvas : Canvas) (mask : ℕ) : Grid := fun cell =>
  if canvas.reserved cell then canvas.modules cell
  else if maskCondition mask cell then !canvas.modules cell
  else canvas.modules cell

structure Run where
  penalty : ℕ
  runLen : ℕ
  prev : Bool

def Run.close (run : Run) : ℕ := if 5 ≤ run.runLen then run.penalty + (run.runLen - 5 + 3) else run.penalty

/-- The runs of one line. -/
def runPenalty (line : ℕ → Bool) (size : ℕ) : ℕ :=
  (((List.range (size - 1)).map (· + 1)).foldl (fun (run : Run) i =>
    if line i = run.prev then { run with runLen := run.runLen + 1 } else ⟨run.close, 1, line i⟩)
    ⟨0, 1, line 0⟩).close

def rowRunPenalty (modules : Grid) (r size : ℕ) : ℕ := runPenalty (fun c => modules (r, c)) size

def colRunPenalty (modules : Grid) (c size : ℕ) : ℕ := runPenalty (fun r => modules (r, c)) size

def finderLikePatternA : List Bool := [true, false, true, true, true, false, true, false, false, false, false]

def finderLikePatternB : List Bool := [false, false, false, false, true, false, true, true, true, false, true]

def matchesPattern (modules : Grid) (r c : ℕ) (horizontal : Bool) (pattern : List Bool) : Bool :=
  pattern.zipIdx.all fun pi => modules (if horizontal then (r, c + pi.2) else (r + pi.2, c)) = pi.1

def computePenalty (modules : Grid) (size : ℕ) : ℕ :=
  let all := List.range size
  let runs := (all.map fun r => rowRunPenalty modules r size).sum + (all.map fun c => colRunPenalty modules c size).sum
  let squares := (pairs (List.range (size - 1)) (List.range (size - 1))).countP fun rc =>
    let v := modules rc
    modules (rc.1, rc.2 + 1) = v && modules (rc.1 + 1, rc.2) = v && modules (rc.1 + 1, rc.2 + 1) = v
  let finderLike := fun r c horizontal =>
    matchesPattern modules r c horizontal finderLikePatternA || matchesPattern modules r c horizontal finderLikePatternB
  let rowMatches := (pairs all (List.range (size - 10))).countP fun rc => finderLike rc.1 rc.2 true
  let colMatches := (pairs all (List.range (size - 10))).countP fun cr => finderLike cr.2 cr.1 false
  let dark := (pairs all all).countP modules
  -- `Math.floor(Math.abs(percent - 50) / 5)`, in whole numbers.
  let deviation := ((dark * 100 : ℤ) - 50 * size ^ 2).natAbs / (5 * size ^ 2)
  runs + squares * 3 + rowMatches * 40 + colMatches * 40 + deviation * 10

structure BestMask where
  mask : ℕ
  modules : Grid
  /-- `none` for infinity. -/
  penalty : Option ℕ

/-- One round of the loop over the masks. -/
def BestMask.try (canvas : Canvas) (size : ℕ) (best : BestMask) (mask : ℕ) : BestMask :=
  let masked := applyMask canvas mask
  let penalty := computePenalty masked size
  if best.penalty.all fun p => penalty < p then ⟨mask, masked, some penalty⟩ else best

def chooseMask (canvas : Canvas) (size : ℕ) : BestMask :=
  (List.range 8).foldl (BestMask.try canvas size) ⟨0, canvas.modules, none⟩

/-! ### The code -/

structure QrCode where
  version : ℕ
  size : ℕ
  matrix : List (List Bool)

def matrixSize (version : ℕ) : ℕ := 17 + 4 * version

/-- The patterns and the dark module. -/
def placePatterns (version : ℕ) : Canvas :=
  let size := matrixSize version
  let canvas := placeFinderPattern ⟨Grid.empty, Grid.empty⟩ 0 0 size
  let canvas := placeFinderPattern canvas 0 (size - 7) size
  let canvas := placeFinderPattern canvas (size - 7) 0 size
  let canvas := placeTimingPatterns canvas size
  let canvas := placeAlignmentPatterns canvas version size
  canvas.place (4 * version + 9, 8) true

/-- All that is placed and reserved before the data. -/
def functionPatterns (version : ℕ) : Canvas where
  modules := (placePatterns version).modules
  reserved :=
    let reserved := reserveFormatInfoArea (placePatterns version).reserved (matrixSize version)
    if 7 ≤ version then reserveVersionInfoArea reserved (matrixSize version) else reserved

def buildMatrix (bits : List Bool) (version : ℕ) (ecLevel : EcLevel) : QrCode :=
  let size := matrixSize version
  let best := chooseMask (placeDataBits (functionPatterns version) bits size) size
  let modules := placeFormatInfo best.modules (formatInfoBits ecLevel best.mask) size
  let modules := if 7 ≤ version then placeVersionInfo modules (versionInfoBits version) size else modules
  ⟨version, size, modules.rows size⟩

def encodeBytes (bytes : List Codeword) : Option QrCode :=
  (selectVersionAndEcLevel bytes.length).map fun selection =>
    buildMatrix (buildCodewordBits bytes selection.1 selection.2) selection.1 selection.2

/-- The code units of a text as characters; what is left of a broken pair is U+FFFD. -/
def characters : List (BitVec 16) → List Char
  | [] => []
  | [u] => [if 0xd800 ≤ u.toNat ∧ u.toNat < 0xe000 then '\uFFFD' else Char.ofNat u.toNat]
  | u :: v :: rest =>
    if 0xd800 ≤ u.toNat ∧ u.toNat < 0xdc00 ∧ 0xdc00 ≤ v.toNat ∧ v.toNat < 0xe000 then
      Char.ofNat (0x10000 + (u.toNat - 0xd800) * 0x400 + (v.toNat - 0xdc00)) :: characters rest
    else
      (if 0xd800 ≤ u.toNat ∧ u.toNat < 0xe000 then '\uFFFD' else Char.ofNat u.toNat) :: characters (v :: rest)

/-- `new TextEncoder().encode(text)`. -/
def encodeUtf8 (text : List (BitVec 16)) : List Codeword :=
  (characters text).flatMap fun c => (String.utf8EncodeChar c).map UInt8.toBitVec

def encodeQr (text : List (BitVec 16)) : Option QrCode := encodeBytes (encodeUtf8 text)

end Arald
