import Arald.Foundations.BitLists
import Arald.Maps.Png

/-!
# Images that are read back

The filters of the PNG standard, the file that a writer makes of an image, and what `decodePng`
returns for it.
-/

namespace Arald

open Foundations

/-! ### The standard's filters -/

inductive FilterType
  | none
  | sub
  | up
  | average
  | paeth

namespace FilterType

def code : FilterType → UInt8
  | none => 0
  | sub => 1
  | up => 2
  | average => 3
  | paeth => 4

end FilterType

/-- The neighbour that is nearest to the sum of the two less the third. -/
def paethPredictor (a b c : ℕ) : ℕ :=
  let p : ℤ := a + b - c
  if distance p a ≤ distance p b ∧ distance p a ≤ distance p c then a
  else if distance p b ≤ distance p c then b
  else c

def FilterType.predict : FilterType → ℕ → ℕ → ℕ → ℕ
  | .none, _, _, _ => 0
  | .sub, a, _, _ => a
  | .up, _, b, _ => b
  | .average, a, b, _ => (a + b) / 2
  | .paeth, a, b, c => paethPredictor a b c

/-- An image of eight bits a channel, with or without an alpha channel. -/
structure PngImage where
  width : ℕ
  height : ℕ
  alpha : Bool
  data : Buffer
  width_pos : 0 < width
  height_pos : 0 < height
  length_data : data.length = width * (if alpha then 4 else 3) * height

namespace PngImage

variable (image : PngImage)

def channels : ℕ := if image.alpha then 4 else 3

def stride : ℕ := image.width * image.channels

/-- A byte of a row, zero outside of the image. -/
def at' (inside : Prop) [Decidable inside] (i : ℕ) : ℕ := if inside then (image.data.getD i 0).toNat else 0

/-- A byte of a row less what the filter predicts. -/
def filteredByte (ft : FilterType) (y i : ℕ) : UInt8 :=
  let at_ := y * image.stride + i
  let a := image.at' (image.channels ≤ i) (at_ - image.channels)
  let b := image.at' (0 < y) ((y - 1) * image.stride + i)
  let c := image.at' (image.channels ≤ i ∧ 0 < y) ((y - 1) * image.stride + i - image.channels)
  image.data.getD at_ 0 - UInt8.ofNat (ft.predict a b c)

def filteredRow (filters : ℕ → FilterType) (y : ℕ) : Buffer :=
  (filters y).code :: (List.range image.stride).map (image.filteredByte (filters y) y)

/-- The bytes that are compressed, for a choice of the filter on each row. -/
def filtered (filters : ℕ → FilterType) : Buffer := (List.range image.height).flatMap (image.filteredRow filters)

end PngImage

/-- A chunk with a checksum that is not read. -/
def pngChunk (type data : Buffer) (crc : ℕ) : Buffer := uint32Bytes data.length ++ (type ++ (data ++ uint32Bytes crc))

def PngImage.header (image : PngImage) : Buffer :=
  uint32Bytes image.width ++ (uint32Bytes image.height ++ [8, if image.alpha then 6 else 2, 0, 0, 0])

/-- The file of an image whose compressed bytes are split into parts, with any checksums. -/
def encodePng (image : PngImage) (parts : List Buffer) (crc : Buffer → ℕ) : Buffer :=
  pngSignature ++ (pngChunk typeIhdr image.header (crc image.header) ++
    (parts.flatMap (fun part => pngChunk typeIdat part (crc part)) ++ pngChunk typeIend [] (crc [])))

/-! ### Chunks -/

section
variable {before type data rest : Buffer} {s : PngChunks} {crc fuel : ℕ}

theorem length_pngChunk (htype : type.length = 4) (data : Buffer) (crc : ℕ) : (pngChunk type data crc).length = data.length + 12 := by
  rw [pngChunk, List.length_append, List.length_append, List.length_append, htype]
  change 4 + (4 + (data.length + 4)) = data.length + 12
  omega

theorem length_typeIhdr : typeIhdr.length = 4 := rfl

theorem length_typeIdat : typeIdat.length = 4 := rfl

theorem length_typeIend : typeIend.length = 4 := rfl

/-- One round reads one chunk. -/
theorem readChunks_chunk (before : Buffer) (htype : type.length = 4) (hdata : data.length < 2 ^ 32) (crc : ℕ)
    (rest : Buffer) (fuel : ℕ) (hs : s.sawEnd = false) :
    readChunks (before ++ (pngChunk type data crc ++ rest)) (fuel + 1) before.length s =
      applyChunk (before ++ (pngChunk type data crc ++ rest)) type (before.length + 8) data.length s >>=
        readChunks (before ++ (pngChunk type data crc ++ rest)) fuel (before ++ pngChunk type data crc).length := by
  have hchunk := length_pngChunk htype data crc
  obtain ⟨t0, t1, t2, t3, rfl⟩ : ∃ t0 t1 t2 t3, type = [t0, t1, t2, t3] := List.length_eq_four.mp htype
  have hlen : getUint32 (before ++ (pngChunk [t0, t1, t2, t3] data crc ++ rest)) before.length = .ok data.length := by
    rw [pngChunk, List.append_assoc]
    exact getUint32_append hdata before _
  have htype : ∀ k, byteAt (before ++ (pngChunk [t0, t1, t2, t3] data crc ++ rest)) (before.length + k) =
      byteAt (pngChunk [t0, t1, t2, t3] data crc ++ rest) k := byteAt_length_add before _
  have hlength : (before ++ (pngChunk [t0, t1, t2, t3] data crc ++ rest)).length =
      before.length + (data.length + 12) + rest.length := by
    rw [List.length_append, List.length_append, hchunk]
    omega
  have hnext : (before ++ pngChunk [t0, t1, t2, t3] data crc).length = before.length + 8 + data.length + 4 := by
    rw [List.length_append, hchunk]
    omega
  have h0 : byteAt (pngChunk [t0, t1, t2, t3] data crc ++ rest) 4 = .ok t0 := rfl
  have h1 : byteAt (pngChunk [t0, t1, t2, t3] data crc ++ rest) 5 = .ok t1 := rfl
  have h2 : byteAt (pngChunk [t0, t1, t2, t3] data crc ++ rest) 6 = .ok t2 := rfl
  have h3 : byteAt (pngChunk [t0, t1, t2, t3] data crc ++ rest) 7 = .ok t3 := rfl
  rw [readChunks, if_pos ⟨by omega, hs⟩, readChunk, hlen, htype, htype, htype, htype, hnext, hlength]
  dsimp only [bind, Except.bind]
  rw [h0, h1, h2, h3]
  dsimp only
  rw [if_neg (by omega)]
  cases applyChunk (before ++ (pngChunk [t0, t1, t2, t3] data crc ++ rest)) [t0, t1, t2, t3] (before.length + 8)
    data.length s <;> rfl

/-- The header is read from the first chunk. -/
theorem applyChunk_header {image : PngImage} (hsize : image.width ≤ maxSide ∧ image.height ≤ maxSide) :
    applyChunk (before ++ (pngChunk typeIhdr image.header crc ++ rest)) typeIhdr (before.length + 8)
        image.header.length s =
      .ok { s with width := image.width, height := image.height, colorType := some (if image.alpha then 6 else 2), sawHeader := true } := by
  have hbytes : before ++ (pngChunk typeIhdr image.header crc ++ rest) =
      (before ++ (uint32Bytes image.header.length ++ typeIhdr)) ++ (image.header ++ (uint32Bytes crc ++ rest)) := by
    simp only [pngChunk, List.append_assoc]
  have hstart : (before ++ (uint32Bytes image.header.length ++ typeIhdr)).length = before.length + 8 := by
    rw [List.length_append]
    rfl
  have hwidth := image.width_pos
  have hheight := image.height_pos
  have hlength : image.header.length = 13 := rfl
  rw [maxSide] at hsize
  have hwidth' : image.width < 2 ^ 32 := by omega
  have hheight' : image.height < 2 ^ 32 := by omega
  rw [applyChunk, if_pos rfl, hbytes, ← hstart]
  generalize before ++ (uint32Bytes image.header.length ++ typeIhdr) = front
  have hfirst : getUint32 (front ++ (image.header ++ (uint32Bytes crc ++ rest))) front.length = .ok image.width := by
    rw [PngImage.header, List.append_assoc]
    exact getUint32_append hwidth' front _
  have hsecond : getUint32 (front ++ (image.header ++ (uint32Bytes crc ++ rest))) (front.length + 4) =
      .ok image.height := by
    have hfront : front.length + 4 = (front ++ uint32Bytes image.width).length := by
      rw [List.length_append]
      rfl
    have hread := getUint32_append hheight' (front ++ uint32Bytes image.width)
      ([8, if image.alpha then 6 else 2, 0, 0, 0] ++ (uint32Bytes crc ++ rest))
    rw [hfront, ← hread, PngImage.header]
    simp only [List.append_assoc]
  have hdepth : byteAt (image.header ++ (uint32Bytes crc ++ rest)) 8 = .ok 8 := rfl
  have hcolor : byteAt (image.header ++ (uint32Bytes crc ++ rest)) 9 = .ok (if image.alpha then 6 else 2) := rfl
  have hinterlace : byteAt (image.header ++ (uint32Bytes crc ++ rest)) 12 = .ok 0 := rfl
  have hsupported : ¬((8 : UInt8) ≠ 8 ∨ ((if image.alpha then 6 else 2 : UInt8) ≠ 2 ∧
      (if image.alpha then 6 else 2 : UInt8) ≠ 6) ∨ (0 : UInt8) ≠ 0) := by
    cases image.alpha <;> decide
  rw [readHeader, if_neg (not_not.mpr hlength), hfirst, hsecond, byteAt_length_add, byteAt_length_add, byteAt_length_add,
    hdepth, hcolor, hinterlace]
  dsimp only [bind, Except.bind]
  rw [if_neg hsupported, if_neg (by rw [maxSide]; omega)]
  rfl

theorem applyChunk_idat (before data rest : Buffer) (crc : ℕ) (s : PngChunks) :
    applyChunk (before ++ (pngChunk typeIdat data crc ++ rest)) typeIdat (before.length + 8) data.length s =
      .ok { s with idat := s.idat ++ [data] } := by
  have hbytes : before ++ (pngChunk typeIdat data crc ++ rest) =
      (before ++ (uint32Bytes data.length ++ typeIdat)) ++ (data ++ (uint32Bytes crc ++ rest)) := by
    simp only [pngChunk, List.append_assoc]
  have hstart : (before ++ (uint32Bytes data.length ++ typeIdat)).length = before.length + 8 := by
    rw [List.length_append]
    rfl
  rw [applyChunk, if_neg (by decide), if_pos rfl, hbytes, ← hstart, subarray_append]

/-- The parts of the compressed bytes are collected. -/
theorem readChunks_parts (before : Buffer) {parts : List Buffer} (hparts : ∀ part ∈ parts, part.length < 2 ^ 32)
    (crcs : Buffer → ℕ) (rest : Buffer) (fuel : ℕ) (hs : s.sawEnd = false) :
    readChunks (before ++ (parts.flatMap (fun part => pngChunk typeIdat part (crcs part)) ++ rest))
        (parts.length + fuel) before.length s =
      readChunks (before ++ (parts.flatMap (fun part => pngChunk typeIdat part (crcs part)) ++ rest)) fuel
        (before ++ parts.flatMap (fun part => pngChunk typeIdat part (crcs part))).length
        { s with idat := s.idat ++ parts } := by
  induction parts generalizing before s with
  | nil =>
    rw [List.flatMap_nil, List.append_nil, List.append_nil, List.length_nil, Nat.zero_add]
  | cons part parts ih =>
    have hpart := hparts part List.mem_cons_self
    have hround := readChunks_chunk before length_typeIdat hpart (crcs part)
      (parts.flatMap (fun part => pngChunk typeIdat part (crcs part)) ++ rest) (parts.length + fuel) hs
    rw [applyChunk_idat] at hround
    rw [List.flatMap_cons, List.append_assoc, List.length_cons, Nat.add_right_comm, hround]
    have hs' : ({ s with idat := s.idat ++ [part] } : PngChunks).sawEnd = false := hs
    have hnext := ih (before ++ pngChunk typeIdat part (crcs part))
      (fun other hmem => hparts other (List.mem_cons_of_mem _ hmem)) hs'
    rw [List.append_assoc, List.append_assoc] at hnext
    refine hnext.trans ?_
    rw [List.append_assoc]
    rfl

end

/-- The chunks of a file that was written. -/
theorem readChunks_encodePng {image : PngImage} {parts : List Buffer} {crc : Buffer → ℕ}
    (hsize : image.width ≤ maxSide ∧ image.height ≤ maxSide) (hparts : ∀ part ∈ parts, part.length < 2 ^ 32)
    {fuel : ℕ} (hfuel : parts.length + 3 ≤ fuel) :
    readChunks (encodePng image parts crc) fuel 8 .start =
      .ok ⟨image.width, image.height, some (if image.alpha then 6 else 2), parts, true, true⟩ := by
  obtain ⟨fuel, rfl⟩ := Nat.exists_eq_add_of_le' hfuel
  have hlength : image.header.length < 2 ^ 32 := by
    rw [show image.header.length = 13 from rfl]
    decide
  have hstart : PngChunks.start.sawEnd = false := rfl
  have hheader := readChunks_chunk pngSignature length_typeIhdr hlength (crc image.header)
    (parts.flatMap (fun part => pngChunk typeIdat part (crc part)) ++ pngChunk typeIend [] (crc []))
    (parts.length + (fuel + 2)) hstart
  rw [applyChunk_header hsize] at hheader
  have hopened : ({ PngChunks.start with width := image.width, height := image.height, colorType := some (if image.alpha then 6 else 2), sawHeader := true } : PngChunks).sawEnd = false := rfl
  have hidat := readChunks_parts (pngSignature ++ pngChunk typeIhdr image.header (crc image.header)) hparts crc
    (pngChunk typeIend [] (crc [])) (fuel + 2) hopened
  have hread : (⟨image.width, image.height, some (if image.alpha then 6 else 2), parts, true, false⟩ : PngChunks).sawEnd =
      false := rfl
  have hnone : ([] : Buffer).length < 2 ^ 32 := by decide
  have hend := readChunks_chunk (pngSignature ++ pngChunk typeIhdr image.header (crc image.header) ++
    parts.flatMap (fun part => pngChunk typeIdat part (crc part))) length_typeIend hnone (crc []) []
    (fuel + 1) hread
  rw [List.append_assoc] at hidat
  rw [List.append_nil, List.append_assoc, List.append_assoc] at hend
  have hcount : fuel + (parts.length + 3) = parts.length + (fuel + 2) + 1 := by omega
  rw [hcount, encodePng]
  refine hheader.trans (hidat.trans (hend.trans ?_))
  change readChunks _ (fuel + 1) _ ⟨image.width, image.height, some (if image.alpha then 6 else 2), parts, true, true⟩ = _
  rw [readChunks, if_neg (fun h => Bool.noConfusion h.2)]

/-! ### Filters -/

section
variable {image : PngImage} {filters : ℕ → FilterType} {y i : ℕ}

theorem filterTerm_code (ft : FilterType) (a b c : ℕ) : filterTerm ft.code a b c = .ok (ft.predict a b c) := by
  cases ft <;> rfl

theorem length_filteredRow (filters : ℕ → FilterType) (y : ℕ) :
    (image.filteredRow filters y).length = image.stride + 1 := by
  rw [PngImage.filteredRow, List.length_cons, List.length_map, List.length_range]

theorem length_filtered (filters : ℕ → FilterType) :
    (image.filtered filters).length = (image.stride + 1) * image.height := by
  rw [PngImage.filtered, length_flatMap_of_length (length_filteredRow filters), List.length_range]

/-- A byte of the filtered bytes, by its row. -/
theorem getElem?_filtered (filters : ℕ → FilterType) (hy : y < image.height) {j : ℕ} (hj : j < image.stride + 1) :
    (image.filtered filters)[y * (image.stride + 1) + j]? = (image.filteredRow filters y)[j]? := by
  have hrow : ∀ y, (image.filteredRow filters y).length = image.stride + 1 := length_filteredRow filters
  have hchunk := chunk_flatMap hrow (List.range image.height) [] (i := y) (by rwa [List.length_range])
  rw [List.append_nil, List.getElem_range] at hchunk
  rw [PngImage.filtered, ← hchunk, chunk, List.getElem?_take_of_lt hj, List.getElem?_drop]

theorem byteAt_filtered_code (hy : y < image.height) :
    byteAt (image.filtered filters) (y * (image.stride + 1)) = .ok (filters y).code := by
  have hget := getElem?_filtered filters hy (j := 0) (Nat.succ_pos _)
  rw [Nat.add_zero] at hget
  rw [byteAt, hget]
  rfl

theorem byteAt_filtered (hy : y < image.height) (hi : i < image.stride) :
    byteAt (image.filtered filters) (y * (image.stride + 1) + 1 + i) =
      .ok (image.filteredByte (filters y) y i) := by
  have hget := getElem?_filtered filters hy (j := i + 1) (Nat.succ_lt_succ hi)
  rw [Nat.add_assoc, Nat.add_comm 1 i, byteAt, hget, PngImage.filteredRow, List.getElem?_cons_succ,
    List.getElem?_map, List.getElem?_range hi]
  rfl

/-- The bytes so far are the neighbours of the next one. -/
theorem neighbour_take (image : PngImage) (inside : Prop) [Decidable inside] {n j : ℕ} (hj : inside → j < n)
    (hn : n ≤ image.data.length) :
    ∃ byte, neighbour inside (image.data.take n) j = .ok byte ∧ byte.toNat = image.at' inside j := by
  by_cases hinside : inside
  · have hlt := hj hinside
    refine ⟨image.data[j], ?_, ?_⟩
    · rw [neighbour, if_pos hinside, byteAt, List.getElem?_take_of_lt hlt, List.getElem?_eq_getElem (by omega)]
    · rw [PngImage.at', if_pos hinside, List.getD_eq_getElem _ _ (by omega)]
  · refine ⟨0, ?_, ?_⟩
    · rw [neighbour, if_neg hinside]
    · rw [PngImage.at', if_neg hinside]
      rfl

/-- A byte is what was filtered of it and what the filter adds. -/
theorem unfilterByte_filtered (hy : y < image.height) (hi : i < image.stride) :
    unfilterByte (image.filtered filters) image.channels image.stride y (filters y).code
        (image.data.take (y * image.stride + i)) i =
      .ok (image.data.take (y * image.stride + (i + 1))) := by
  have hchannels : 0 < image.channels := by
    rw [PngImage.channels]
    split_ifs <;> decide
  have habove : (y - 1) * image.stride = y * image.stride - image.stride := Nat.sub_one_mul y image.stride
  have hrow : 0 < y → image.stride ≤ y * image.stride := fun hpos => Nat.le_mul_of_pos_left _ hpos
  have hnext : (y + 1) * image.stride ≤ image.height * image.stride := Nat.mul_le_mul_right _ hy
  have hlength : image.data.length = image.height * image.stride := by
    rw [image.length_data, Nat.mul_comm]
    rfl
  have hlt : y * image.stride + i < image.data.length := by
    rw [Nat.succ_mul] at hnext
    omega
  obtain ⟨a, ha, haval⟩ := neighbour_take image (image.channels ≤ i)
    (n := y * image.stride + i) (j := y * image.stride + i - image.channels) (fun _ => by omega) hlt.le
  obtain ⟨b, hb, hbval⟩ := neighbour_take image (0 < y) (n := y * image.stride + i)
    (j := y * image.stride - image.stride + i) (fun hpos => by have := hrow hpos; omega) hlt.le
  obtain ⟨c, hc, hcval⟩ := neighbour_take image (image.channels ≤ i ∧ 0 < y)
    (n := y * image.stride + i) (j := y * image.stride - image.stride + i - image.channels)
    (fun hboth => by have := hrow hboth.2; omega) hlt.le
  have hbyte : UInt8.ofNat ((image.filteredByte (filters y) y i).toNat +
      (filters y).predict a.toNat b.toNat c.toNat) = image.data[y * image.stride + i] := by
    rw [UInt8.ofNat_add, UInt8.ofNat_toNat, PngImage.filteredByte]
    simp only [habove, ← haval, ← hbval, ← hcval, List.getD_eq_getElem _ _ hlt]
    exact UInt8.sub_add_cancel _ _
  rw [unfilterByte, byteAt_filtered hy hi, ha, hb, hc]
  dsimp only [bind, Except.bind]
  rw [filterTerm_code]
  dsimp only
  rw [hbyte, ← Nat.add_assoc, List.take_succ_eq_append_getElem hlt]
  rfl

theorem unfilter_filtered (filters : ℕ → FilterType) :
    unfilter (image.filtered filters) image.channels image.stride image.height = .ok image.data := by
  have hlength : image.data.length = image.height * image.stride := by
    rw [image.length_data, Nat.mul_comm]
    rfl
  have hrows := foldlM_range_eq_ok (n := image.height)
    (f := unfilterRow (image.filtered filters) image.channels image.stride)
    (fun y => image.data.take (y * image.stride)) fun y hy => by
      have hrow := foldlM_range_eq_ok (n := image.stride)
        (f := unfilterByte (image.filtered filters) image.channels image.stride y (filters y).code)
        (fun i => image.data.take (y * image.stride + i)) fun i hi => unfilterByte_filtered hy hi
      rw [unfilterRow, byteAt_filtered_code hy, Nat.succ_mul]
      exact hrow
  rw [Nat.zero_mul, List.take_zero, ← hlength, List.take_length] at hrows
  exact hrows

end

theorem length_encodePng_gt (image : PngImage) (parts : List Buffer) (crc : Buffer → ℕ) :
    parts.length + 33 ≤ (encodePng image parts crc).length := by
  have hparts : parts.length ≤ (parts.flatMap fun part => pngChunk typeIdat part (crc part)).length := by
    induction parts with
    | nil => exact Nat.le_refl 0
    | cons part parts ih =>
      rw [List.flatMap_cons, List.length_append, List.length_cons, length_pngChunk rfl]
      omega
  rw [encodePng, List.length_append, List.length_append, List.length_append, length_pngChunk rfl, length_pngChunk rfl]
  change _ ≤ 8 + (13 + 12 + (_ + (0 + 12)))
  omega

/-- An image within the limit is read back from every file that a writer may make of it. -/
theorem decodePng_encodePng {inflate : Inflate} {deflate : Buffer → Buffer} {image : PngImage}
    {filters : ℕ → FilterType} {parts : List Buffer} {crc : Buffer → ℕ}
    (hinflate : ∀ raw limit, raw.length ≤ limit → inflate (deflate raw) limit = .ok raw)
    (hsize : image.width ≤ maxSide ∧ image.height ≤ maxSide)
    (hparts : parts ≠ [] ∧ ∀ part ∈ parts, part.length < 2 ^ 32)
    (hsplit : parts.flatten = deflate (image.filtered filters)) :
    decodePng inflate (encodePng image parts crc) = .ok ⟨image.width, image.height, image.channels, image.data⟩ := by
  have hlong := length_encodePng_gt image parts crc
  have hsignature : ¬((encodePng image parts crc).length < 33 ∨ (encodePng image parts crc).take 8 ≠ pngSignature) := by
    rintro (hshort | hother)
    · omega
    · exact hother (List.take_left' rfl)
  have hchannels : (if some (if image.alpha then (6 : UInt8) else 2) = some 2 then 3 else 4) = image.channels := by
    rw [PngImage.channels]
    cases image.alpha <;> rfl
  have hlimit : inflate (deflate (image.filtered filters)) ((image.stride + 1) * image.height + 16) =
      .ok (image.filtered filters) := hinflate _ _ (by rw [length_filtered]; omega)
  rw [decodePng, if_neg hsignature, readChunks_encodePng hsize hparts.2 (by omega)]
  dsimp only [bind, Except.bind]
  rw [if_neg (by simp [hparts.1]), hchannels, hsplit]
  rw [← show image.stride = image.width * image.channels from rfl, hlimit]
  dsimp only [Except.mapError]
  rw [if_neg (not_not.mpr (length_filtered filters)), unfilter_filtered]
  rfl

/-- Bytes that are stored as they are. -/
def storedInflate : Inflate := fun bytes limit => if bytes.length ≤ limit then .ok bytes else .error "buffer"

theorem storedInflate_eq (raw : Buffer) (limit : ℕ) (h : raw.length ≤ limit) : storedInflate (id raw) limit = .ok raw :=
  if_pos h

end Arald
