import Arald.Foundations.Runs
import Arald.Transports.BridgeFrames

/-!
# The frame reader of the bridge firmware

`BridgeFrameReader` of `bridge_protocol.cpp`, which gets one byte at a time, beside
the reader of the host. When a checksum fails, it looks for a start byte among the
bytes of the failed frame and goes on from the first one, once. The reader of the
host would go on from every one of them.
-/

namespace Arald

open Foundations

/-- The buffer is not cleared before it is written. -/
def computeBridgeChecksum (type : UInt8) (payload : List UInt8) (len : UInt8) : UInt8 :=
  (payload.take len.toNat).foldl (fun c b => c ^^^ b) (type ^^^ len)

inductive ReaderState where
  | waitSof
  | waitType
  | waitLen
  | waitPayload
  | waitChecksum
  deriving DecidableEq

inductive TransitionResult where
  | needMore
  | frameComplete (outFrame : BridgeFrame)
  | checksumMismatch

structure FirmwareFrameReader where
  state : ReaderState
  type : UInt8
  len : UInt8
  payload : List UInt8
  payloadIndex : UInt8

namespace FirmwareFrameReader

def transition (r : FirmwareFrameReader) (b : UInt8) : FirmwareFrameReader × TransitionResult :=
  match r.state with
  | .waitSof => ({ r with state := if b = frameSof then .waitType else .waitSof }, .needMore)
  | .waitType => ({ r with type := b, state := .waitLen }, .needMore)
  | .waitLen =>
    ({ r with len := b, payloadIndex := 0, state := if b = 0 then .waitChecksum else .waitPayload },
      .needMore)
  | .waitPayload =>
    ({ r with
        payload := r.payload.set r.payloadIndex.toNat b
        payloadIndex := r.payloadIndex + 1
        state := if r.len ≤ r.payloadIndex + 1 then .waitChecksum else .waitPayload },
      .needMore)
  | .waitChecksum =>
    if b = computeBridgeChecksum r.type r.payload r.len then
      ({ r with state := .waitSof }, .frameComplete ⟨r.type, r.payload.take r.len.toNat⟩)
    else ({ r with state := .waitSof }, .checksumMismatch)

/-- The bytes since the opening start byte of a failed frame. -/
def recordOf (r : FirmwareFrameReader) (b : UInt8) : List UInt8 :=
  r.type :: r.len :: (r.payload.take r.len.toNat ++ [b])

/-- `record[recordCount++] = b`, with a counter of eight bits. -/
def writeRecord (w : List UInt8 × UInt8) (b : UInt8) : List UInt8 × UInt8 :=
  (w.1.set w.2.toNat b, w.2 + 1)

/-- The first `recordCount` bytes of the record that was written. -/
def scanned (bytes : List UInt8) : List UInt8 :=
  let w := bytes.foldl writeRecord (List.replicate 258 0, 0)
  w.1.take w.2.toNat

/-- The inner loop of the rescan. -/
def replay (r : FirmwareFrameReader) : List UInt8 → FirmwareFrameReader × Option BridgeFrame
  | [] => (r, none)
  | b :: rest =>
    match r.transition b with
    | (r', .needMore) => replay r' rest
    | (r', .frameComplete outFrame) => (r', some outFrame)
    | (r', .checksumMismatch) => (r', none)

/-- Only the first start byte in the record is tried. -/
def rescan (r : FirmwareFrameReader) (record : List UInt8) : FirmwareFrameReader × Option BridgeFrame :=
  match (scanned record).dropWhile fun b => b ≠ frameSof with
  | [] => (r, none)
  | _ :: rest => replay { r with state := .waitType } rest

def pushByte (r : FirmwareFrameReader) (b : UInt8) : FirmwareFrameReader × Option BridgeFrame :=
  match r.transition b with
  | (r', .frameComplete outFrame) => (r', some outFrame)
  | (r', .needMore) => (r', none)
  | (r', .checksumMismatch) => r'.rescan (r.recordOf b)

/-! ### What is given up -/

/-- The bytes of a record that the rescan does not see, since the counter started
again at 256. -/
def overwritten (record : List UInt8) : List UInt8 := record.take (256 * (record.length / 256))

/-- The bytes behind a start byte that are given up when the reader goes on from it:
those after a complete frame, and all of them when its checksum fails as well. -/
def givenUpBehind (rest : List UInt8) : List UInt8 :=
  match BridgeFrameReader.verdict (frameSof :: rest) with
  | .incomplete => []
  | .skip => rest
  | .frame _ size => (frameSof :: rest).drop size

/-- The bytes of a failed frame that the reader never looks at again, or only once
more in a frame that fails as well. -/
def givenUp (record : List UInt8) : List UInt8 :=
  match (record.drop (256 * (record.length / 256))).dropWhile fun b => b ≠ frameSof with
  | [] => overwritten record
  | _ :: rest => overwritten record ++ givenUpBehind rest

/-! ### The record -/

variable {r : FirmwareFrameReader} {b : UInt8}

/-- Writing a byte behind those that are in use. -/
theorem take_set_succ {l : List UInt8} {i : ℕ} (hroom : i < l.length) (b : UInt8) :
    (l.set i b).take (i + 1) = l.take i ++ [b] := by
  rw [List.take_succ_eq_append_getElem (by rwa [List.length_set]), List.getElem_set_self,
    List.take_set_of_le le_rfl]

theorem writeRecord_spec {record : List UInt8} (hrecord : record.length = 258) (bytes : List UInt8) :
    (bytes.foldl writeRecord (record, 0)).1.length = 258 ∧
      (bytes.foldl writeRecord (record, 0)).2.toNat = bytes.length % 256 ∧
      (bytes.foldl writeRecord (record, 0)).1.take (bytes.foldl writeRecord (record, 0)).2.toNat =
        bytes.drop (256 * (bytes.length / 256)) := by
  induction bytes using List.reverseRecOn with
  | nil => exact ⟨hrecord, rfl, rfl⟩
  | append_singleton bytes b ih =>
    obtain ⟨hlength, hcount, hscanned⟩ := ih
    rw [List.foldl_append, List.foldl_cons, List.foldl_nil, writeRecord]
    generalize bytes.foldl writeRecord (record, 0) = w at hlength hcount hscanned
    obtain ⟨written, recordCount⟩ := w
    dsimp only at hlength hcount hscanned ⊢
    have hnext : (recordCount + 1).toNat = (recordCount.toNat + 1) % 256 := by
      rw [UInt8.toNat_add]
      rfl
    have hsum : (bytes ++ [b]).length = bytes.length + 1 := by simp
    refine ⟨by rw [List.length_set, hlength], by rw [hnext, hsum]; omega, ?_⟩
    rw [hnext, hsum, hcount]
    rw [hcount] at hscanned
    by_cases hwraps : bytes.length % 256 = 255
    · -- the counter starts again, and the record is empty
      have hall : 256 * ((bytes.length + 1) / 256) = bytes.length + 1 := by omega
      rw [hwraps, hall, List.drop_of_length_le hsum.le]
      rfl
    · have hindex : bytes.length % 256 < written.length := by omega
      have hsame : 256 * ((bytes.length + 1) / 256) = 256 * (bytes.length / 256) := by omega
      have hmod : (bytes.length % 256 + 1) % 256 = bytes.length % 256 + 1 := by omega
      rw [hmod, take_set_succ hindex, hscanned, hsame, List.drop_append_of_le_length (by omega)]

theorem scanned_eq (bytes : List UInt8) : scanned bytes = bytes.drop (256 * (bytes.length / 256)) :=
  (writeRecord_spec List.length_replicate bytes).2.2

/-! ### The bytes that a state stands for -/

/-- What the reader has of the frame it is in. -/
def kept (r : FirmwareFrameReader) : List UInt8 :=
  match r.state with
  | .waitSof => []
  | .waitType => [frameSof]
  | .waitLen => [frameSof, r.type]
  | .waitPayload => frameSof :: r.type :: r.len :: r.payload.take r.payloadIndex.toNat
  | .waitChecksum => frameSof :: r.type :: r.len :: r.payload.take r.len.toNat

theorem kept_of_waitSof (h : r.state = .waitSof) : r.kept = [] := by
  rw [kept, h]

structure Sound (r : FirmwareFrameReader) : Prop where
  length : r.payload.length = maxFramePayloadBytes
  index : r.state = .waitPayload → r.payloadIndex.toNat < r.len.toNat

theorem Sound.length_take (h : r.Sound) {n : UInt8} : (r.payload.take n.toNat).length = n.toNat := by
  have hbyte : n.toNat < 256 := n.toNat_lt
  rw [List.length_take, h.length, maxFramePayloadBytes]
  omega

theorem Sound.computeBridgeChecksum_eq (h : r.Sound) :
    computeBridgeChecksum r.type r.payload r.len = computeChecksum r.type (r.payload.take r.len.toNat) := by
  rw [computeBridgeChecksum, computeChecksum, h.length_take, UInt8.ofNat_toNat]

open BridgeFrameReader (verdict_sof framing)

/-- What is kept is the beginning of a frame. -/
theorem Sound.verdict_kept (h : r.Sound) : framing.verdict r.kept = .incomplete := by
  unfold kept
  cases hstate : r.state with
  | waitSof | waitType | waitLen => rfl
  | waitPayload =>
    refine (verdict_sof ..).trans ?_
    rw [List.getElem?_eq_none (h.length_take.le.trans (h.index hstate).le)]
  | waitChecksum =>
    refine (verdict_sof ..).trans ?_
    rw [List.getElem?_eq_none h.length_take.le]

/-- One byte of a frame. -/
theorem Sound.transition_cases (h : r.Sound) (hstate : r.state ≠ .waitSof) (b : UInt8) :
    ((r.transition b).2 = .needMore ∧ (r.transition b).1.kept = r.kept ++ [b] ∧
      (r.transition b).1.state ≠ .waitSof ∧ (r.transition b).1.Sound) ∨
    (∃ f, (r.transition b).2 = .frameComplete f ∧
      framing.verdict (r.kept ++ [b]) = .frame f (r.kept ++ [b]).length ∧
      (r.transition b).1.state = .waitSof ∧ (r.transition b).1.Sound) ∨
    ((r.transition b).2 = .checksumMismatch ∧ framing.verdict (r.kept ++ [b]) = .skip ∧
      r.kept ++ [b] = frameSof :: r.recordOf b ∧
      (r.transition b).1.state = .waitSof ∧ (r.transition b).1.Sound) := by
  unfold transition kept
  cases hcase : r.state with
  | waitSof => exact absurd hcase hstate
  | waitType =>
    refine .inl ⟨rfl, rfl, by simp, h.length, by simp⟩
  | waitLen =>
    left
    by_cases hzero : b = 0
    · refine ⟨rfl, ?_, by simp [hzero], h.length, by simp [hzero]⟩
      simp [hzero]
    · have hpos : 0 < b.toNat := Nat.pos_of_ne_zero fun hb => hzero (UInt8.toNat_inj.mp hb)
      refine ⟨rfl, ?_, by simp [hzero], h.length, fun _ => hpos⟩
      simp [hzero]
  | waitPayload =>
    left
    have hindex := h.index hcase
    have hbyte : r.len.toNat < 256 := r.len.toNat_lt
    have hnext : (r.payloadIndex + 1).toNat = r.payloadIndex.toNat + 1 := by
      rw [UInt8.toNat_add]
      exact Nat.mod_eq_of_lt (by change r.payloadIndex.toNat + 1 < 256; omega)
    have hroom : r.payloadIndex.toNat < r.payload.length := by
      rw [h.length, maxFramePayloadBytes]
      omega
    have htake := take_set_succ hroom b
    have hlength : (r.payload.set r.payloadIndex.toNat b).length = maxFramePayloadBytes := by
      rw [List.length_set, h.length]
    by_cases hlast : r.len ≤ r.payloadIndex + 1
    · have hlen : r.len.toNat = r.payloadIndex.toNat + 1 := by
        have hle := UInt8.le_iff_toNat_le.mp hlast
        omega
      refine ⟨rfl, ?_, by simp [hlast], hlength, by simp [hlast]⟩
      simp [hlast, hlen, htake]
    · have hlt : (r.payloadIndex + 1).toNat < r.len.toNat :=
        Nat.lt_of_not_le fun hle => hlast (UInt8.le_iff_toNat_le.mpr hle)
      refine ⟨rfl, ?_, by simp [hlast], hlength, fun _ => hlt⟩
      simp [hlast, hnext, htake]
  | waitChecksum =>
    right
    have hverdict : framing.verdict (frameSof :: r.type :: r.len :: (r.payload.take r.len.toNat ++ [b])) =
        if b = computeChecksum r.type (r.payload.take r.len.toNat) then
          .frame ⟨r.type, r.payload.take r.len.toNat⟩ (frameOverheadBytes + r.len.toNat)
        else .skip := by
      refine (verdict_sof ..).trans ?_
      rw [List.getElem?_append_right h.length_take.le, List.take_append_of_le_length h.length_take.ge,
        List.take_take, Nat.min_self, h.length_take, Nat.sub_self]
      rfl
    simp only [List.cons_append]
    rw [hverdict, h.computeBridgeChecksum_eq]
    by_cases hchecksum : b = computeChecksum r.type (r.payload.take r.len.toNat)
    · left
      have hsize : frameOverheadBytes + r.len.toNat =
          (frameSof :: r.type :: r.len :: (r.payload.take r.len.toNat ++ [b])).length := by
        simp only [List.length_cons, List.length_append, h.length_take, List.length_nil, frameOverheadBytes]
        omega
      rw [if_pos hchecksum, if_pos hchecksum, hsize]
      exact ⟨_, rfl, rfl, rfl, h.length, by simp⟩
    · right
      rw [if_neg hchecksum, if_neg hchecksum]
      exact ⟨rfl, rfl, rfl, rfl, h.length, by simp⟩

/-- Going on from a start byte comes to what a frame begun there would be. -/
theorem Sound.replay (h : r.Sound) (hstate : r.state ≠ .waitSof) (rest : List UInt8) :
    (r.replay rest).1.Sound ∧
      match framing.verdict (r.kept ++ rest) with
      | .incomplete => (r.replay rest).2 = none ∧ (r.replay rest).1.kept = r.kept ++ rest
      | .skip => (r.replay rest).2 = none ∧ (r.replay rest).1.kept = []
      | .frame f _ => (r.replay rest).2 = some f ∧ (r.replay rest).1.kept = [] := by
  induction rest generalizing r with
  | nil =>
    rw [List.append_nil, h.verdict_kept]
    exact ⟨h, rfl, rfl⟩
  | cons b rest ih =>
    have hsplit : r.kept ++ b :: rest = (r.kept ++ [b]) ++ rest := by simp
    rw [hsplit]
    unfold FirmwareFrameReader.replay
    rcases h.transition_cases hstate b with
      ⟨hresult, hkept, hstate', hsound⟩ | ⟨f, hresult, hverdict, hstate', hsound⟩ |
        ⟨hresult, hverdict, -, hstate', hsound⟩
    · generalize r.transition b = next at hresult hkept hstate' hsound
      obtain ⟨r', result⟩ := next
      obtain rfl : result = .needMore := hresult
      rw [← hkept]
      exact ih hsound hstate'
    · rw [framing.stable rest (by simp [hverdict]), hverdict]
      generalize r.transition b = next at hresult hstate' hsound
      obtain ⟨r', result⟩ := next
      obtain rfl : result = .frameComplete f := hresult
      exact ⟨hsound, rfl, kept_of_waitSof hstate'⟩
    · rw [framing.stable rest (by simp [hverdict]), hverdict]
      generalize r.transition b = next at hresult hstate' hsound
      obtain ⟨r', result⟩ := next
      obtain rfl : result = .checksumMismatch := hresult
      exact ⟨hsound, rfl, kept_of_waitSof hstate'⟩

/-- A list up to its first start byte. -/
theorem dropWhile_sof_cases (bytes : List UInt8) :
    (bytes.dropWhile (fun b => b ≠ frameSof) = [] ∧ frameSof ∉ bytes) ∨
      ∃ noise rest, bytes = noise ++ frameSof :: rest ∧ (∀ b ∈ noise, b ≠ frameSof) ∧
        bytes.dropWhile (fun b => b ≠ frameSof) = frameSof :: rest := by
  induction bytes with
  | nil => exact .inl ⟨rfl, by simp⟩
  | cons b bytes ih =>
    by_cases hb : b = frameSof
    · exact .inr ⟨[], bytes, by rw [hb]; rfl, by simp, by simp [hb]⟩
    · rcases ih with ⟨hdrop, hmem⟩ | ⟨noise, rest, rfl, hnoise, hdrop⟩
      · exact .inl ⟨by simpa [hb] using hdrop, by simp [Ne.symm hb, hmem]⟩
      · refine .inr ⟨b :: noise, rest, rfl, ?_, by simpa [hb] using hdrop⟩
        intro c hc
        rcases List.mem_cons.mp hc with rfl | hc
        · exact hb
        · exact hnoise c hc

/-- Without a start byte among what it gives up, the rescan finds what the host's
reader finds in the same bytes. -/
theorem Sound.rescan (h : r.Sound) (hstate : r.state = .waitSof) {record : List UInt8}
    (hlost : frameSof ∉ givenUp record) :
    (r.rescan record).1.Sound ∧
      framing.parse record = ((r.rescan record).2.toList, (r.rescan record).1.kept) := by
  have hsplit : record = overwritten record ++ scanned record := by
    rw [scanned_eq, overwritten, List.take_append_drop]
  have hparse : frameSof ∉ overwritten record → framing.parse record = framing.parse (scanned record) := by
    intro hnone
    nth_rewrite 1 [hsplit]
    exact BridgeFrameReader.parse_noise _ _ fun b hb heq => hnone (heq ▸ hb)
  rw [givenUp, ← scanned_eq] at hlost
  rw [FirmwareFrameReader.rescan]
  rcases dropWhile_sof_cases (scanned record) with ⟨hdrop, hmem⟩ | ⟨noise, rest, hbytes, hnoise, hdrop⟩
  · rw [hdrop] at hlost ⊢
    refine ⟨h, ?_⟩
    rw [hparse hlost, BridgeFrameReader.parse_of_notMem hmem]
    exact congrArg _ (kept_of_waitSof hstate).symm
  · rw [hdrop] at hlost ⊢
    obtain ⟨hover, hbehind⟩ := List.mem_append.not.mp hlost |> not_or.mp
    rw [hparse hover, hbytes, BridgeFrameReader.parse_noise _ _ hnoise]
    have hresume : Sound { r with state := .waitType } := ⟨h.length, by simp⟩
    obtain ⟨hsound, hfound⟩ := hresume.replay (by simp) rest
    refine ⟨hsound, ?_⟩
    rw [givenUpBehind] at hbehind
    have hfound' := hfound
    have hhead : kept { r with state := .waitType } ++ rest = frameSof :: rest := rfl
    rw [hhead] at hfound'
    cases hverdict : framing.verdict (frameSof :: rest) with
    | incomplete =>
      rw [hverdict] at hfound'
      rw [Framing.parse_of_incomplete hverdict, hfound'.1, hfound'.2]
      rfl
    | skip =>
      rw [hverdict] at hfound'
      have hnone : frameSof ∉ rest := by
        have hsame : BridgeFrameReader.verdict (frameSof :: rest) = .skip := hverdict
        rwa [hsame] at hbehind
      rw [Framing.parse_of_skip hverdict, hfound'.1, hfound'.2]
      exact BridgeFrameReader.parse_of_notMem hnone
    | frame f size =>
      rw [hverdict] at hfound'
      have hnone : frameSof ∉ (frameSof :: rest).drop size := by
        have hsame : BridgeFrameReader.verdict (frameSof :: rest) = .frame f size := hverdict
        rwa [hsame] at hbehind
      rw [Framing.parse_of_frame hverdict, BridgeFrameReader.parse_of_notMem hnone, hfound'.1, hfound'.2]
      rfl

/-- The checksum of a frame fails with this byte. -/
def mismatches (r : FirmwareFrameReader) (b : UInt8) : Bool :=
  r.state = .waitChecksum && b ≠ computeBridgeChecksum r.type r.payload r.len

/-- One byte: unless a start byte is given up, the reader finds what the host's
reader finds with that byte. -/
theorem Sound.pushByte (h : r.Sound) (b : UInt8)
    (hlost : r.mismatches b = true → frameSof ∉ givenUp (r.recordOf b)) :
    (r.pushByte b).1.Sound ∧
      framing.parse (r.kept ++ [b]) = ((r.pushByte b).2.toList, (r.pushByte b).1.kept) := by
  unfold FirmwareFrameReader.pushByte
  by_cases hstate : r.state = .waitSof
  · have htransition : r.transition b =
        ({ r with state := if b = frameSof then .waitType else .waitSof }, .needMore) := by
      rw [transition, hstate]
    rw [htransition]
    dsimp only
    refine ⟨⟨h.length, ?_⟩, ?_⟩
    · intro hpayload
      split_ifs at hpayload
    · rw [kept_of_waitSof hstate, List.nil_append]
      by_cases hb : b = frameSof
      · rw [hb]
        rfl
      · rw [BridgeFrameReader.parse_of_notMem (by simpa using Ne.symm hb)]
        simp [kept, hb]
  · rcases h.transition_cases hstate b with
      ⟨hresult, hkept, hstate', hsound⟩ | ⟨f, hresult, hverdict, hstate', hsound⟩ |
        ⟨hresult, hverdict, hrecord, hstate', hsound⟩
    · generalize r.transition b = next at hresult hkept hstate' hsound
      obtain ⟨r', result⟩ := next
      obtain rfl : result = .needMore := hresult
      rw [← hkept]
      exact ⟨hsound, Framing.parse_of_incomplete hsound.verdict_kept⟩
    · rw [Framing.parse_of_frame hverdict, List.drop_length]
      generalize r.transition b = next at hresult hstate' hsound
      obtain ⟨r', result⟩ := next
      obtain rfl : result = .frameComplete f := hresult
      exact ⟨hsound, congrArg _ (kept_of_waitSof hstate').symm⟩
    · have hmismatch : r.mismatches b = true := by
        unfold transition at hresult
        rw [mismatches]
        cases hcase : r.state with
        | waitSof => exact absurd hcase hstate
        | waitType | waitLen | waitPayload => simp [hcase] at hresult
        | waitChecksum =>
          rw [hcase] at hresult
          dsimp only at hresult
          split_ifs at hresult with hchecksum
          simp [hchecksum]
      rw [Framing.parse_of_skip hverdict, hrecord]
      generalize r.transition b = next at hresult hstate' hsound
      obtain ⟨r', result⟩ := next
      obtain rfl : result = .checksumMismatch := hresult
      exact hsound.rescan hstate' (hlost hmismatch)

end FirmwareFrameReader

/-! ### Runs -/

/-- The reader of the firmware with all that it has received and delivered. -/
structure FirmwareRun where
  reader : FirmwareFrameReader
  received : List UInt8
  delivered : List BridgeFrame

namespace FirmwareRun

open FirmwareFrameReader

def create (payload : List UInt8) : FirmwareRun := ⟨⟨.waitSof, 0, 0, payload, 0⟩, [], []⟩

def step (s : FirmwareRun) (b : UInt8) : Option FirmwareRun :=
  let r := s.reader.pushByte b
  some ⟨r.1, s.received ++ [b], s.delivered ++ r.2.toList⟩

/-- A fresh reader, whatever is in its buffer, and any bytes. -/
def system : System FirmwareRun UInt8 where
  Init s := ∃ payload, payload.length = maxFramePayloadBytes ∧ s = create payload
  step := step

/-- If the checksum of a frame fails with this byte, no start byte is given up. -/
def spares (s : FirmwareRun) (b : UInt8) : Bool :=
  !s.reader.mismatches b || frameSof ∉ givenUp (s.reader.recordOf b)

variable {s : FirmwareRun}

theorem parse_received (h : system.ReachableUnder (fun s b => s.spares b = true) s) :
    s.reader.Sound ∧ BridgeFrameReader.framing.parse s.received = (s.delivered, s.reader.kept) := by
  apply h.invariant (I := fun s =>
    s.reader.Sound ∧ BridgeFrameReader.framing.parse s.received = (s.delivered, s.reader.kept))
  · rintro s ⟨payload, hlength, rfl⟩
    exact ⟨⟨hlength, by simp [create]⟩, rfl⟩
  · rintro s b s' ⟨hsound, hparse⟩ hspares hstep
    obtain rfl := Option.some.inj hstep
    have hlost : s.reader.mismatches b = true → frameSof ∉ givenUp (s.reader.recordOf b) := by
      intro hmismatch
      rw [spares, hmismatch, Bool.not_true, Bool.false_or] at hspares
      exact of_decide_eq_true hspares
    obtain ⟨hsound', hbyte⟩ := hsound.pushByte b hlost
    refine ⟨hsound', ?_⟩
    dsimp only
    rw [Framing.parse_append, hparse, hbyte]

/-- Unless a rescan gives up a start byte, the firmware delivers the frames that the
host's reader finds in the same bytes. -/
theorem delivers_alike (h : system.ReachableUnder (fun s b => s.spares b = true) s)
    (chunks : List (List UInt8)) (hchunks : chunks.flatten = s.received) :
    s.delivered = (BridgeFrameReader.pushAll .sx126x [] chunks).1 := by
  have hempty : BridgeFrameReader.framing.Awaits [] [] := rfl
  rw [(BridgeFrameReader.pushAll_spec hempty .sx126x chunks).1, hchunks, List.nil_append,
    (parse_received h).2]

/-- A command that claims six bytes instead of two, and a `RESET` behind it. -/
def longerClaim : List UInt8 := [0xAA, 0x02, 0x06, 0x80, 0x00, 0x80, 0xAA, 0x01, 0x00, 0x01]

theorem delivers_alike_longerClaim :
    ∃ s, system.Reachable s ∧ s.received = longerClaim ∧ s.delivered = [⟨0x01, []⟩] ∧
      (BridgeFrameReader.pushAll .sx126x [] [longerClaim]).1 = [⟨0x01, []⟩] := by
  have hrun : (system.runUnder (fun s b => s.spares b) (create (List.replicate 255 0)) longerClaim).map
      (fun s => (s.received, s.delivered)) = some (longerClaim, [⟨0x01, []⟩]) := by
    decide
  obtain ⟨s, hs, hsummary⟩ := Option.map_eq_some_iff.mp hrun
  obtain ⟨hreceived, hdelivered⟩ := Prod.mk.inj hsummary
  have hreach := System.reachableUnder_of_runUnder (S := system) ⟨_, List.length_replicate, rfl⟩ hs
  have halike := delivers_alike hreach [longerClaim] (by rw [hreceived, List.flatten_singleton])
  exact ⟨s, hreach.reachable, hreceived, hdelivered, by rw [← halike, hdelivered]⟩

/-- A command whose payload has a start byte claims eight bytes instead of three. The
frame begun at that start byte fails as well, and two `RESET`s are gone with it. -/
theorem resets_swallowed :
    ∃ s, system.Reachable s ∧ ∃ damaged reset,
      encodeBridgeFrame 0x02 [0xAA, 0x55, 0x00] = .ok damaged ∧ encodeBridgeFrame 0x01 [] = .ok reset ∧
      s.received = damaged.set 2 0x08 ++ reset ++ reset ∧ s.delivered = [] ∧
      (BridgeFrameReader.pushAll .sx126x [] [s.received]).1 = [⟨0x01, []⟩, ⟨0x01, []⟩] := by
  have hrun : (system.run (create (List.replicate 255 0))
      [0xAA, 0x02, 0x08, 0xAA, 0x55, 0x00, 0xFE, 0xAA, 0x01, 0x00, 0x01, 0xAA, 0x01, 0x00, 0x01]).map
        (fun s => (s.received, s.delivered, (BridgeFrameReader.pushAll .sx126x [] [s.received]).1)) =
      some ([0xAA, 0x02, 0x08, 0xAA, 0x55, 0x00, 0xFE, 0xAA, 0x01, 0x00, 0x01, 0xAA, 0x01, 0x00, 0x01], [],
        [⟨0x01, []⟩, ⟨0x01, []⟩]) := by
    decide
  obtain ⟨s, hs, hsummary⟩ := Option.map_eq_some_iff.mp hrun
  obtain ⟨hreceived, hrest⟩ := Prod.mk.inj hsummary
  obtain ⟨hdelivered, hhost⟩ := Prod.mk.inj hrest
  exact ⟨s, System.reachable_of_run ⟨_, List.length_replicate, rfl⟩ hs,
    [0xAA, 0x02, 0x03, 0xAA, 0x55, 0x00, 0xFE], [0xAA, 0x01, 0x00, 0x01], rfl, rfl, hreceived, hdelivered, hhost⟩

end FirmwareRun
end Arald
