import Arald.Qr.Matrix

/-!
# A decoder

What a reader of the code does with the matrix alone: the version from the size, level and
mask from the first copy of the format bits, the zigzag without the function patterns,
and the codewords.
-/

namespace Arald

open Foundations

/-- Level and mask, when the bits are a codeword of the format. -/
def readFormat (g : Grid) : Option (EcLevel × ℕ) :=
  let format := ofBits (formatCopy1Coords.map g) ^^^ formatMask
  let data5 := format >>> 10
  if bchRemainder format formatGenerator 10 = 0 then
    if data5 >>> 3 = ecLevelBits .l then some (.l, data5 % 8)
    else if data5 >>> 3 = ecLevelBits .m then some (.m, data5 % 8)
    else none
  else none

/-- The cells of the data, in order. -/
def dataCells (version : ℕ) : List Cell :=
  (zigzag (matrixSize version)).filter fun cell => !(functionPatterns version).reserved cell

def readDataBits (g : Grid) (version mask : ℕ) : List Bool :=
  (dataCells version).map fun cell => xor (g cell) (maskCondition mask cell)

def decodeQr (matrix : List (List Bool)) : Option (List Codeword) :=
  let version := (matrix.length - 17) / 4
  let g := Grid.ofRows matrix
  if version ∈ versions ∧ matrix.length = matrixSize version ∧ ∀ row ∈ matrix, row.length = matrix.length then
    (readFormat g).bind fun format =>
      let bits := readDataBits g version format.2
      decodeCodewords version format.1 (readCodewords bits (bits.length / 8))
  else none

end Arald
