import Arald.Foundations.BitLists
import Arald.Qr.GaloisField

/-!
# Codewords

The first half of `qrcode.ts`: the bytes of a text become the codewords of blocks, each
with its error correction, and the blocks are interleaved. Beside it stands the reader,
which undoes each of these.
-/

namespace Arald

open Foundations

inductive EcLevel where
  | l
  | m
  deriving DecidableEq

instance : Fintype EcLevel := ⟨{.l, .m}, fun level => by cases level <;> decide⟩

structure BlockGroup where
  count : ℕ
  dataCodewords : ℕ

structure VersionCapacity where
  ecCodewordsPerBlock : ℕ
  group1 : BlockGroup
  group2 : Option BlockGroup

/-- `CAPACITY`, one row a version, level L before level M. -/
def capacityTable : List (VersionCapacity × VersionCapacity) :=
  [(⟨7, ⟨1, 19⟩, none⟩, ⟨10, ⟨1, 16⟩, none⟩),
    (⟨10, ⟨1, 34⟩, none⟩, ⟨16, ⟨1, 28⟩, none⟩),
    (⟨15, ⟨1, 55⟩, none⟩, ⟨26, ⟨1, 44⟩, none⟩),
    (⟨20, ⟨1, 80⟩, none⟩, ⟨18, ⟨2, 32⟩, none⟩),
    (⟨26, ⟨1, 108⟩, none⟩, ⟨24, ⟨2, 43⟩, none⟩),
    (⟨18, ⟨2, 68⟩, none⟩, ⟨16, ⟨4, 27⟩, none⟩),
    (⟨20, ⟨2, 78⟩, none⟩, ⟨18, ⟨4, 31⟩, none⟩),
    (⟨24, ⟨2, 97⟩, none⟩, ⟨22, ⟨2, 38⟩, some ⟨2, 39⟩⟩),
    (⟨30, ⟨2, 116⟩, none⟩, ⟨22, ⟨3, 36⟩, some ⟨2, 37⟩⟩),
    (⟨18, ⟨2, 68⟩, some ⟨2, 69⟩⟩, ⟨26, ⟨4, 43⟩, some ⟨1, 44⟩⟩)]

def capacity (version : ℕ) : EcLevel → VersionCapacity
  | .l => (capacityTable.getD (version - 1) (⟨0, ⟨0, 0⟩, none⟩, ⟨0, ⟨0, 0⟩, none⟩)).1
  | .m => (capacityTable.getD (version - 1) (⟨0, ⟨0, 0⟩, none⟩, ⟨0, ⟨0, 0⟩, none⟩)).2

namespace VersionCapacity

variable (cap : VersionCapacity)

def totalDataCodewords : ℕ :=
  cap.group1.count * cap.group1.dataCodewords + (cap.group2.map fun g => g.count * g.dataCodewords).getD 0

/-- The number of data codewords of each block. -/
def blockLengths : List ℕ :=
  List.replicate cap.group1.count cap.group1.dataCodewords ++
    (cap.group2.map fun g => List.replicate g.count g.dataCodewords).getD []

end VersionCapacity

/-! ### Versions -/

def versions : List ℕ := List.range' 1 10

def countBits (version : ℕ) : ℕ := if version ≤ 9 then 8 else 16

def requiredDataBits (version byteLength : ℕ) : ℕ := 4 + countBits version + byteLength * 8

def fits (byteLength version : ℕ) (ecLevel : EcLevel) : Bool :=
  requiredDataBits version byteLength ≤ (capacity version ecLevel).totalDataCodewords * 8

def selectVersionAndEcLevel (byteLength : ℕ) : Option (ℕ × EcLevel) :=
  [EcLevel.m, EcLevel.l].findSome? fun ecLevel =>
    (versions.find? fun version => fits byteLength version ecLevel).map fun version => (version, ecLevel)

/-! ### Data codewords -/

def pushBits (bits : List Bool) (value length : ℕ) : List Bool := bits ++ toBits length value

def bitsToByte (bits : List Bool) : ℕ := ofBits bits

/-- The header, the bytes, the terminator and zeros up to a whole codeword. -/
def dataBits (bytes : List Codeword) (version totalDataCodewords : ℕ) : List Bool :=
  let bits := pushBits (pushBits [] 4 4) bytes.length (countBits version)
  let bits := bytes.foldl (fun bits b => pushBits bits b.toNat 8) bits
  let bits := bits ++ List.replicate (min 4 (totalDataCodewords * 8 - bits.length)) false
  bits ++ List.replicate ((8 - bits.length % 8) % 8) false

def buildDataCodewords (bytes : List Codeword) (version totalDataCodewords : ℕ) : List Codeword :=
  let bits := dataBits bytes version totalDataCodewords
  let codewords := (List.range ((bits.length + 7) / 8)).map fun i => BitVec.ofNat 8 (bitsToByte (chunk 8 bits i))
  codewords ++ (List.range (totalDataCodewords - codewords.length)).map fun i => if i % 2 = 0 then 0xec else 0x11

/-- The blocks of the given lengths, one after the other. -/
def takeBlocks : List ℕ → List Codeword → List (List Codeword)
  | [], _ => []
  | n :: lengths, codewords => codewords.take n :: takeBlocks lengths (codewords.drop n)

def splitIntoBlocks (codewords : List Codeword) (cap : VersionCapacity) : List (List Codeword) :=
  takeBlocks cap.blockLengths codewords

/-- The first codeword of each block that has one, then the second, and so on. -/
def interleave (rounds : ℕ) (blocks : List (List Codeword)) : List Codeword :=
  (List.range rounds).flatMap fun i => blocks.filterMap fun block => block[i]?

def maxLength (lengths : List ℕ) : ℕ := lengths.foldr max 0

/-- `(cw >> b) & 1` for `b` from 7 down. -/
def codewordBits (codewords : List Codeword) : List Bool := codewords.flatMap fun cw => toBits 8 cw.toNat

def buildCodewordBits (bytes : List Codeword) (version : ℕ) (ecLevel : EcLevel) : List Bool :=
  let cap := capacity version ecLevel
  let blocks := splitIntoBlocks (buildDataCodewords bytes version cap.totalDataCodewords) cap
  let ecBlocks := blocks.map fun block => rsEncode block cap.ecCodewordsPerBlock
  let interleavedData := interleave (maxLength (blocks.map List.length)) blocks
  let interleavedEc := (List.range cap.ecCodewordsPerBlock).flatMap fun i => ecBlocks.map fun block => block.getD i 0
  codewordBits (interleavedData ++ interleavedEc)

/-! ### Reading codewords -/

def readCodewords (bits : List Bool) (count : ℕ) : List Codeword :=
  (List.range count).map fun i => BitVec.ofNat 8 (ofBits (chunk 8 bits i))

/-- The places of the interleaved codewords: a block and an index in it. -/
def slots (lengths : List ℕ) : List (ℕ × ℕ) :=
  (List.range (maxLength lengths)).flatMap fun i =>
    ((List.range lengths.length).filter fun j => i < lengths.getD j 0).map fun j => (j, i)

def deinterleave (lengths : List ℕ) (codewords : List Codeword) : List (List Codeword) :=
  (List.range lengths.length).map fun j =>
    (List.range (lengths.getD j 0)).map fun i => codewords.getD ((slots lengths).idxOf (j, i)) 0

/-- The bytes after the header of byte mode. -/
def readBytes (version : ℕ) (codewords : List Codeword) : Option (List Codeword) :=
  let bits := codewordBits codewords
  let length := ofBits ((bits.drop 4).take (countBits version))
  if ofBits (bits.take 4) = 4 ∧ 4 + countBits version + length * 8 ≤ bits.length then
    some (readCodewords (bits.drop (4 + countBits version)) length)
  else none

/-- The blocks, checked, and the bytes in them. -/
def decodeCodewords (version : ℕ) (ecLevel : EcLevel) (codewords : List Codeword) : Option (List Codeword) :=
  let cap := capacity version ecLevel
  let blocks := deinterleave cap.blockLengths (codewords.take cap.totalDataCodewords)
  let ecBlocks := deinterleave (List.replicate cap.blockLengths.length cap.ecCodewordsPerBlock)
    (codewords.drop cap.totalDataCodewords)
  if (blocks.zip ecBlocks).all fun b => (syndromes (b.1 ++ b.2) cap.ecCodewordsPerBlock).all fun s => s = 0 then
    readBytes version blocks.flatten
  else none

end Arald
