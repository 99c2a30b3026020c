import Arald.Content.Buffers

/-!
# PNG images

The decoder of `png.ts`, eight bits a channel without interlacing, and the images that a writer
makes with any filter on any row and any split of the compressed bytes. What zlib does is a
parameter, `inflate` with the bound on its output.
-/

namespace Arald

open Foundations

def pngSignature : Buffer := [0x89, 0x50, 0x4e, 0x47, 0x0d, 0x0a, 0x1a, 0x0a]

def maxSide : ℕ := 4096

def typeIhdr : Buffer := [0x49, 0x48, 0x44, 0x52]

def typeIdat : Buffer := [0x49, 0x44, 0x41, 0x54]

def typeIend : Buffer := [0x49, 0x45, 0x4e, 0x44]

structure DecodedPng where
  width : ℕ
  height : ℕ
  channels : ℕ
  data : Buffer
  deriving DecidableEq

/-- The variables of the loop over the chunks. No color type has been seen where the code has -1. -/
structure PngChunks where
  width : ℕ
  height : ℕ
  colorType : Option UInt8
  idat : List Buffer
  sawHeader : Bool
  sawEnd : Bool

def PngChunks.start : PngChunks := ⟨0, 0, none, [], false, false⟩

/-! ### Chunks -/

def readHeader (bytes : Buffer) (dataStart len : ℕ) (s : PngChunks) : Except Fault PngChunks := do
  if len ≠ 13 then throw (.thrown "PNG: intestazione non valida")
  let width ← getUint32 bytes dataStart
  let height ← getUint32 bytes (dataStart + 4)
  let bitDepth ← byteAt bytes (dataStart + 8)
  let colorType ← byteAt bytes (dataStart + 9)
  let interlace ← byteAt bytes (dataStart + 12)
  if bitDepth ≠ 8 ∨ (colorType ≠ 2 ∧ colorType ≠ 6) ∨ interlace ≠ 0 then
    throw (.thrown "PNG non supportato (servono 8 bit, RGB o RGBA, senza interlacciamento)")
  if width < 1 ∨ height < 1 ∨ maxSide < width ∨ maxSide < height then throw (.thrown "PNG: dimensioni non valide")
  return { s with width, height, colorType := some colorType, sawHeader := true }

/-- The three cases of the type, every other chunk is skipped. -/
def applyChunk (bytes type : Buffer) (dataStart len : ℕ) (s : PngChunks) : Except Fault PngChunks :=
  if type = typeIhdr then readHeader bytes dataStart len s
  else if type = typeIdat then .ok { s with idat := s.idat ++ [subarray bytes dataStart (dataStart + len)] }
  else if type = typeIend then .ok { s with sawEnd := true }
  else .ok s

def readChunk (bytes : Buffer) (off : ℕ) (s : PngChunks) : Except Fault (PngChunks × ℕ) := do
  let len ← getUint32 bytes off
  let t0 ← byteAt bytes (off + 4)
  let t1 ← byteAt bytes (off + 5)
  let t2 ← byteAt bytes (off + 6)
  let t3 ← byteAt bytes (off + 7)
  let type := [t0, t1, t2, t3]
  let dataStart := off + 8
  if bytes.length - dataStart - 4 < len then throw (.thrown "PNG troncato")
  let s' ← applyChunk bytes type dataStart len s
  return (s', dataStart + len + 4)

/-- The loop, with a bound on the chunks that are left. -/
def readChunks (bytes : Buffer) : ℕ → ℕ → PngChunks → Except Fault PngChunks
  | 0, _, _ => .error .outside
  | fuel + 1, off, s =>
    if off + 12 ≤ bytes.length ∧ s.sawEnd = false then do
      let (s, off) ← readChunk bytes off s
      readChunks bytes fuel off s
    else .ok s

/-! ### Filters -/

def distance (a b : ℤ) : ℕ := (a - b).natAbs

/-- What a filter adds to a byte, from those on the left, above, and above on the left. -/
def filterTerm (ft : UInt8) (a b c : ℕ) : Except Fault ℕ :=
  match ft.toNat with
  | 0 => .ok 0
  | 1 => .ok a
  | 2 => .ok b
  | 3 => .ok ((a + b) / 2)
  | 4 =>
    let pp : ℤ := a + b - c
    let pa := distance pp a
    let pb := distance pp b
    let pc := distance pp c
    .ok (if pa ≤ pb ∧ pa ≤ pc then a else if pb ≤ pc then b else c)
  | _ => .error (.thrown "PNG: filtro sconosciuto")

/-- A byte that was written before, or zero. -/
def neighbour (inside : Prop) [Decidable inside] (out : Buffer) (i : ℕ) : Except Fault UInt8 :=
  if inside then byteAt out i else .ok 0

/-- One more byte of a row, where `out` has all those before it. -/
def unfilterByte (raw : Buffer) (channels stride y : ℕ) (ft : UInt8) (out : Buffer) (i : ℕ) : Except Fault Buffer := do
  let src := y * (stride + 1) + 1
  let dst := y * stride
  let x ← byteAt raw (src + i)
  let a ← neighbour (channels ≤ i) out (dst + i - channels)
  let b ← neighbour (0 < y) out (dst - stride + i)
  let c ← neighbour (channels ≤ i ∧ 0 < y) out (dst - stride + i - channels)
  let term ← filterTerm ft a.toNat b.toNat c.toNat
  return out ++ [UInt8.ofNat (x.toNat + term)]

def unfilterRow (raw : Buffer) (channels stride : ℕ) (out : Buffer) (y : ℕ) : Except Fault Buffer := do
  let ft ← byteAt raw (y * (stride + 1))
  (List.range stride).foldlM (unfilterByte raw channels stride y ft) out

def unfilter (raw : Buffer) (channels stride height : ℕ) : Except Fault Buffer :=
  (List.range height).foldlM (unfilterRow raw channels stride) []

/-- `inflateSync(bytes, { maxOutputLength })`, with the message of what it throws. -/
abbrev Inflate := Buffer → ℕ → Except String Buffer

def decodePng (inflate : Inflate) (bytes : Buffer) : Except Fault DecodedPng := do
  if bytes.length < 33 ∨ bytes.take 8 ≠ pngSignature then throw (.thrown "Non è un PNG")
  let s ← readChunks bytes (bytes.length + 1) 8 .start
  if s.sawHeader = false ∨ s.idat = [] then throw (.thrown "PNG incompleto")
  let channels := if s.colorType = some 2 then 3 else 4
  let stride := s.width * channels
  let joined := s.idat.flatten
  let raw ← (inflate joined ((stride + 1) * s.height + 16)).mapError .thrown
  if raw.length ≠ (stride + 1) * s.height then throw (.thrown "PNG: dati di dimensione inattesa")
  let out ← unfilter raw channels stride s.height
  return ⟨s.width, s.height, channels, out⟩

/-! ### Arbitrary bytes -/

section
variable {bytes raw out : Buffer} {inflate : Inflate} {s : PngChunks} {off channels stride height y i : ℕ} {ft : UInt8}

/-- What is known of the chunks that have been read. -/
def PngChunks.Sound (s : PngChunks) : Prop :=
  s.sawHeader = true → 1 ≤ s.width ∧ s.width ≤ maxSide ∧ 1 ≤ s.height ∧ s.height ≤ maxSide

theorem ensures_readHeader {dataStart len : ℕ} (hend : dataStart + len ≤ bytes.length) :
    Ensures Fault.IsThrown PngChunks.Sound (readHeader bytes dataStart len s) := by
  rw [readHeader]
  refine Ensures.ite (fun _ => trivial) fun hlen => ?_
  rw [not_not] at hlen
  refine Ensures.bind (ensures_getUint32 (by omega)) fun width _ => ?_
  refine Ensures.bind (ensures_getUint32 (by omega)) fun height _ => ?_
  refine Ensures.bind (ensures_byteAt (by omega)) fun bitDepth _ => ?_
  refine Ensures.bind (ensures_byteAt (by omega)) fun colorType _ => ?_
  refine Ensures.bind (ensures_byteAt (by omega)) fun interlace _ => ?_
  refine Ensures.ite (fun _ => trivial) fun _ => ?_
  refine Ensures.ite (fun _ => trivial) fun hsize => ?_
  intro _
  dsimp only
  omega

/-- A chunk is read inside of the bytes, and the next one begins after it. -/
theorem ensures_readChunk (hoff : off + 12 ≤ bytes.length) (hs : s.Sound) :
    Ensures Fault.IsThrown (fun next => next.1.Sound ∧ off < next.2 ∧ next.2 ≤ bytes.length)
      (readChunk bytes off s) := by
  rw [readChunk]
  refine Ensures.bind (ensures_getUint32 (by omega)) fun len _ => ?_
  refine Ensures.bind (ensures_byteAt (by omega)) fun t0 _ => ?_
  refine Ensures.bind (ensures_byteAt (by omega)) fun t1 _ => ?_
  refine Ensures.bind (ensures_byteAt (by omega)) fun t2 _ => ?_
  refine Ensures.bind (ensures_byteAt (by omega)) fun t3 _ => ?_
  refine Ensures.ite (fun _ => trivial) fun hlen => ?_
  have hstate : Ensures Fault.IsThrown PngChunks.Sound (applyChunk bytes [t0, t1, t2, t3] (off + 8) len s) := by
    refine Ensures.ite (fun _ => ensures_readHeader (by omega)) fun _ => ?_
    exact Ensures.ite (fun _ => hs) fun _ => Ensures.ite (fun _ => hs) fun _ => hs
  refine Ensures.bind hstate fun s' hs' => ?_
  have hnext : s'.Sound ∧ off < off + 8 + len + 4 ∧ off + 8 + len + 4 ≤ bytes.length := ⟨hs', by omega, by omega⟩
  exact hnext

theorem ensures_readChunks {fuel : ℕ} (hfuel : bytes.length < off + fuel) (hoff : off ≤ bytes.length) (hs : s.Sound) :
    Ensures Fault.IsThrown PngChunks.Sound (readChunks bytes fuel off s) := by
  induction fuel generalizing off s with
  | zero => omega
  | succ fuel ih =>
    rw [readChunks]
    refine Ensures.ite (fun hnext => ?_) fun _ => hs
    exact Ensures.bind (ensures_readChunk hnext.1 hs) fun next h => ih (by omega) h.2.2 h.1

theorem ensures_filterTerm (a b c : ℕ) : Ensures Fault.IsThrown (fun _ => True) (filterTerm ft a b c) := by
  rw [filterTerm]
  split <;> trivial

theorem ensures_neighbour {inside : Prop} [Decidable inside] (h : inside → i < out.length) :
    Ensures Fault.IsThrown (fun _ => True) (neighbour inside out i) :=
  Ensures.ite (fun hinside => ensures_byteAt (h hinside)) fun _ => trivial

/-- A byte is added to those before it. -/
theorem ensures_unfilterByte (hchannels : 0 < channels) (hraw : raw.length = (stride + 1) * height) (hy : y < height)
    (hi : i < stride) (hout : out.length = y * stride + i) (ft : UInt8) :
    Ensures Fault.IsThrown (fun out' => out'.length = y * stride + (i + 1))
      (unfilterByte raw channels stride y ft out i) := by
  have hrow : (y + 1) * (stride + 1) ≤ height * (stride + 1) := Nat.mul_le_mul_right _ hy
  have hsrc : y * (stride + 1) + 1 + i < raw.length := by
    rw [hraw, Nat.mul_comm (stride + 1)]
    rw [Nat.succ_mul] at hrow
    omega
  have habove : 0 < y → stride ≤ y * stride := fun hpos => Nat.le_mul_of_pos_left stride hpos
  rw [unfilterByte]
  refine Ensures.bind (ensures_byteAt hsrc) fun x _ => ?_
  refine Ensures.bind (ensures_neighbour fun hleft => ?_) fun a _ => ?_
  · omega
  refine Ensures.bind (ensures_neighbour fun hup => ?_) fun b _ => ?_
  · have := habove hup
    omega
  refine Ensures.bind (ensures_neighbour fun hboth => ?_) fun c _ => ?_
  · have := habove hboth.2
    omega
  refine Ensures.bind (ensures_filterTerm _ _ _) fun term _ => ?_
  have hlength : (out ++ [UInt8.ofNat (x.toNat + term)]).length = y * stride + (i + 1) := by
    rw [List.length_append, hout]
    rfl
  exact hlength

theorem ensures_unfilter (hchannels : 0 < channels) (hraw : raw.length = (stride + 1) * height) :
    Ensures Fault.IsThrown (fun out => out.length = height * stride) (unfilter raw channels stride height) := by
  refine Ensures.foldlM_range (fun y (out : Buffer) => out.length = y * stride) (Nat.zero_mul _).symm ?_
  intro y out hy hout
  have hrow : (y + 1) * (stride + 1) ≤ height * (stride + 1) := Nat.mul_le_mul_right _ hy
  rw [unfilterRow]
  refine Ensures.bind (ensures_byteAt ?_) fun ft _ => ?_
  · rw [hraw, Nat.mul_comm (stride + 1)]
    rw [Nat.succ_mul] at hrow
    omega
  · have hloop := Ensures.foldlM_range (n := stride) (fun i (out : Buffer) => out.length = y * stride + i) hout
      fun i out hi hout => ensures_unfilterByte hchannels hraw hy hi hout ft
    exact hloop.mono fun out h => by rw [h, Nat.succ_mul]

/-- What is returned has the declared size, one that is supported. -/
def DecodedPng.WellFormed (image : DecodedPng) : Prop :=
  (image.channels = 3 ∨ image.channels = 4) ∧ (1 ≤ image.width ∧ image.width ≤ maxSide) ∧
    (1 ≤ image.height ∧ image.height ≤ maxSide) ∧ image.data.length = image.width * image.channels * image.height

/-- Whatever the bytes and the inflated bytes are, nothing is read outside of them. -/
theorem ensures_decodePng (inflate : Inflate) (bytes : Buffer) :
    Ensures Fault.IsThrown DecodedPng.WellFormed (decodePng inflate bytes) := by
  rw [decodePng]
  refine Ensures.ite (fun _ => trivial) fun hsignature => ?_
  refine Ensures.bind (ensures_readChunks (by omega) (by omega) nofun) fun s hs => ?_
  refine Ensures.ite (fun _ => trivial) fun hcomplete => ?_
  have hheader : s.sawHeader = true := by
    rw [← Bool.not_eq_false]
    exact fun h => hcomplete (.inl h)
  have hchannels : (if s.colorType = some 2 then 3 else 4) = 3 ∨ (if s.colorType = some 2 then 3 else 4) = 4 := by
    split_ifs
    · exact .inl rfl
    · exact .inr rfl
  have hinflate : ∀ r : Except String Buffer, Ensures Fault.IsThrown (fun _ => True) (r.mapError .thrown) := by
    intro r
    cases r <;> trivial
  refine Ensures.bind (hinflate _) fun raw _ => ?_
  refine Ensures.ite (fun _ => trivial) fun hraw => ?_
  rw [not_not] at hraw
  refine Ensures.bind (ensures_unfilter (by omega) hraw) fun out hout => ?_
  have hsize := hs hheader
  have himage : DecodedPng.WellFormed ⟨s.width, s.height, if s.colorType = some 2 then 3 else 4, out⟩ :=
    ⟨hchannels, ⟨hsize.1, hsize.2.1⟩, ⟨hsize.2.2.1, hsize.2.2.2⟩, by rw [hout, Nat.mul_comm]⟩
  exact himage

end
end Arald
