import Arald.Foundations.Framing
import Arald.Transports.BridgeClient

/-!
# The frame readers of the serial bridges

`BridgeFrameReader` of `sx127x-bridge-protocol.ts`, and the copy of it in
`sx126x-bridge-protocol.ts`. A reader keeps what it cannot use yet. After a failed
checksum it drops the start byte that it went by, and looks for the next one in all
that came behind.
-/

namespace Arald

open Foundations

def frameOverheadBytes : ℕ := 4

inductive BridgeProtocol where
  | sx127x
  | sx126x

/-- `MAX_ACCUMULATOR_BYTES` of either protocol. -/
def BridgeProtocol.maxAccumulatorBytes : BridgeProtocol → ℕ
  | sx127x => 8192
  | sx126x => 8192

def longestFrameBytes : ℕ := frameOverheadBytes + maxFramePayloadBytes

namespace BridgeFrameReader

/-- The loop of `push` on the buffer. -/
def extract : ℕ → List UInt8 → List BridgeFrame × List UInt8
  | 0, buffer => ([], buffer)
  | fuel + 1, buffer =>
    match buffer.findIdx? fun b => b = frameSof with
    | none => ([], buffer.drop (buffer.length - 1))
    | some sofIndex =>
      let buffer := buffer.drop sofIndex
      if buffer.length < 3 then ([], buffer)
      else
        let type := buffer.getD 1 0
        let len := (buffer.getD 2 0).toNat
        let total := frameOverheadBytes + len
        if buffer.length < total then ([], buffer)
        else
          let payload := (buffer.drop 3).take len
          if buffer.getD (3 + len) 0 = computeChecksum type payload then
            let r := extract fuel (buffer.drop total)
            (⟨type, payload⟩ :: r.1, r.2)
          else extract fuel (buffer.drop 1)

/-- Every round takes at least one byte, so there are never more rounds than this. -/
def push (protocol : BridgeProtocol) (buffer chunk : List UInt8) : List BridgeFrame × List UInt8 :=
  let r := extract ((buffer ++ chunk).length + 1) (buffer ++ chunk)
  if protocol.maxAccumulatorBytes < r.2.length then (r.1, []) else r

def pushAll (protocol : BridgeProtocol) :
    List UInt8 → List (List UInt8) → List BridgeFrame × List UInt8
  | buffer, [] => ([], buffer)
  | buffer, chunk :: chunks =>
    let r := push protocol buffer chunk
    let later := pushAll protocol r.2 chunks
    (r.1 ++ later.1, later.2)

/-! ### The framing -/

/-- What a buffer begins with. -/
def verdict : List UInt8 → Verdict BridgeFrame
  | [] => .incomplete
  | sof :: rest =>
    if sof ≠ frameSof then .skip
    else
      match rest with
      | type :: len :: body =>
        match body[len.toNat]? with
        | none => .incomplete
        | some checksum =>
          if checksum = computeChecksum type (body.take len.toNat) then
            .frame ⟨type, body.take len.toNat⟩ (frameOverheadBytes + len.toNat)
          else .skip
      | _ => .incomplete

theorem verdict_of_ne {sof : UInt8} (rest : List UInt8) (h : sof ≠ frameSof) :
    verdict (sof :: rest) = .skip := by
  simp [verdict, h]

theorem verdict_sof (type len : UInt8) (body : List UInt8) :
    verdict (frameSof :: type :: len :: body) =
      match body[len.toNat]? with
      | none => .incomplete
      | some checksum =>
        if checksum = computeChecksum type (body.take len.toNat) then
          .frame ⟨type, body.take len.toNat⟩ (frameOverheadBytes + len.toNat)
        else .skip := by
  simp [verdict]

/-- The frames of both protocols. -/
def framing : Framing UInt8 BridgeFrame where
  verdict := verdict
  verdict_nil := rfl
  size_bounds := by
    intro buffer f size h
    match buffer with
    | [] => cases h
    | [sof] | [sof, type] => by_cases hsof : sof = frameSof <;> simp [verdict, hsof] at h
    | sof :: type :: len :: body =>
      by_cases hsof : sof = frameSof
      · rw [hsof, verdict_sof] at h
        split at h
        · cases h
        · next checksum hchecksum =>
          split_ifs at h
          cases h
          have hlt := (List.getElem?_eq_some_iff.mp hchecksum).1
          simp only [frameOverheadBytes, List.length_cons]
          omega
      · rw [verdict_of_ne _ hsof] at h
        cases h
  stable := by
    intro buffer more h
    match buffer with
    | [] => exact absurd rfl h
    | [sof] | [sof, type] =>
      by_cases hsof : sof = frameSof
      · simp [verdict, hsof] at h
      · exact (verdict_of_ne _ hsof).trans (verdict_of_ne _ hsof).symm
    | sof :: type :: len :: body =>
      by_cases hsof : sof = frameSof
      · subst hsof
        simp only [List.cons_append]
        rw [verdict_sof] at h ⊢
        rw [verdict_sof]
        cases hchecksum : body[len.toNat]? with
        | none => simp [hchecksum] at h
        | some checksum =>
          have hlt := (List.getElem?_eq_some_iff.mp hchecksum).1
          rw [List.getElem?_append_left hlt, hchecksum, List.take_append_of_le_length hlt.le]
      · exact (verdict_of_ne _ hsof).trans (verdict_of_ne _ hsof).symm

/-! ### The loop -/

/-- Bytes before the first start byte are skipped. -/
theorem parse_noise (noise rest : List UInt8) (h : ∀ b ∈ noise, b ≠ frameSof) :
    framing.parse (noise ++ rest) = framing.parse rest := by
  induction noise with
  | nil => rfl
  | cons b noise ih =>
    have hskip : framing.verdict (b :: (noise ++ rest)) = .skip :=
      verdict_of_ne _ (h b (List.mem_cons_self ..))
    rw [List.cons_append, Framing.parse_of_skip hskip]
    exact ih fun c hc => h c (List.mem_cons_of_mem _ hc)

/-- Without a start byte, nothing is found and nothing needs to be kept. -/
theorem parse_of_notMem {buffer : List UInt8} (h : frameSof ∉ buffer) : framing.parse buffer = ([], []) := by
  have hnoise := parse_noise buffer [] fun b hb heq => h (heq ▸ hb)
  rw [List.append_nil] at hnoise
  exact hnoise

/-- A buffer up to its first start byte. -/
theorem findIdx?_sof_cases (buffer : List UInt8) :
    (buffer.findIdx? (fun b => b = frameSof) = none ∧ frameSof ∉ buffer) ∨
      ∃ noise rest, buffer = noise ++ frameSof :: rest ∧ (∀ b ∈ noise, b ≠ frameSof) ∧
        buffer.findIdx? (fun b => b = frameSof) = some noise.length := by
  induction buffer with
  | nil => exact .inl ⟨rfl, by simp⟩
  | cons b buffer ih =>
    by_cases hb : b = frameSof
    · exact .inr ⟨[], buffer, by rw [hb]; rfl, by simp, by simp [List.findIdx?_cons, hb]⟩
    · rcases ih with ⟨hnone, hmem⟩ | ⟨noise, rest, rfl, hnoise, hsome⟩
      · exact .inl ⟨by simp [List.findIdx?_cons, hb, hnone], by simp [Ne.symm hb, hmem]⟩
      · refine .inr ⟨b :: noise, rest, rfl, ?_, by simp [List.findIdx?_cons, hb, hsome]⟩
        intro c hc
        rcases List.mem_cons.mp hc with rfl | hc
        · exact hb
        · exact hnoise c hc

/-- One round of the loop, from the first start byte on. -/
theorem extract_sof (fuel : ℕ) {buffer noise rest : List UInt8} (hbuffer : buffer = noise ++ frameSof :: rest)
    (hsome : buffer.findIdx? (fun b => b = frameSof) = some noise.length) :
    extract (fuel + 1) buffer =
      match verdict (frameSof :: rest) with
      | .incomplete => ([], frameSof :: rest)
      | .skip => extract fuel rest
      | .frame f size =>
        (f :: (extract fuel ((frameSof :: rest).drop size)).1,
          (extract fuel ((frameSof :: rest).drop size)).2) := by
  rw [extract, hsome]
  dsimp only
  rw [hbuffer, List.drop_left]
  match rest with
  | [] | [type] => rfl
  | type :: len :: body =>
    have hshort : ¬(frameSof :: type :: len :: body).length < 3 := by simp
    rw [if_neg hshort, verdict_sof]
    have htype : (frameSof :: type :: len :: body).getD 1 0 = type := rfl
    have hlen : (frameSof :: type :: len :: body).getD 2 0 = len := rfl
    have hbody : (frameSof :: type :: len :: body).drop 3 = body := rfl
    have hchecksum : (frameSof :: type :: len :: body).getD (3 + len.toNat) 0 = body.getD len.toNat 0 := by
      rw [Nat.add_comm]
      rfl
    rw [htype, hlen, hbody, hchecksum]
    by_cases hwhole : len.toNat < body.length
    · have hlong : ¬(frameSof :: type :: len :: body).length < frameOverheadBytes + len.toNat := by
        simp only [List.length_cons, frameOverheadBytes]
        omega
      rw [if_neg hlong, List.getElem?_eq_getElem hwhole, List.getD_eq_getElem _ _ hwhole]
      dsimp only
      split_ifs <;> rfl
    · have hlong : (frameSof :: type :: len :: body).length < frameOverheadBytes + len.toNat := by
        simp only [List.length_cons, frameOverheadBytes]
        omega
      rw [if_pos hlong, List.getElem?_eq_none (not_lt.mp hwhole)]

theorem length_of_incomplete {rest : List UInt8} (h : verdict (frameSof :: rest) = .incomplete) :
    (frameSof :: rest).length < longestFrameBytes := by
  simp only [longestFrameBytes, frameOverheadBytes, maxFramePayloadBytes]
  match rest with
  | [] | [type] => simp
  | type :: len :: body =>
    rw [verdict_sof] at h
    have hbyte : len.toNat < 256 := len.toNat_lt
    split at h
    · next hnone =>
      have hle := List.getElem?_eq_none_iff.mp hnone
      simp only [List.length_cons]
      omega
    · split_ifs at h

/-- The loop finds the frames of the buffer; what it keeps stands for what is left
of it, and is shorter than a frame can be. -/
theorem extract_spec (fuel : ℕ) (buffer : List UInt8) (hfuel : buffer.length < fuel) :
    (extract fuel buffer).1 = (framing.parse buffer).1 ∧
      framing.Awaits (extract fuel buffer).2 (framing.parse buffer).2 ∧
      (extract fuel buffer).2.length < longestFrameBytes := by
  induction fuel generalizing buffer with
  | zero => exact absurd hfuel (Nat.not_lt_zero _)
  | succ fuel ih =>
    rcases findIdx?_sof_cases buffer with ⟨hnone, hmem⟩ | ⟨noise, rest, hbuffer, hnoise, hsome⟩
    · have hkept : extract (fuel + 1) buffer = ([], buffer.drop (buffer.length - 1)) := by
        rw [extract, hnone]
      have hmem' : frameSof ∉ buffer.drop (buffer.length - 1) := fun h => hmem (List.mem_of_mem_drop h)
      rw [hkept, parse_of_notMem hmem]
      refine ⟨rfl, parse_of_notMem hmem', ?_⟩
      simp only [List.length_drop, longestFrameBytes, frameOverheadBytes, maxFramePayloadBytes]
      omega
    · have hparse : framing.parse buffer = framing.parse (frameSof :: rest) := by
        rw [hbuffer, parse_noise _ _ hnoise]
      have hlength : (frameSof :: rest).length ≤ fuel := by
        rw [hbuffer, List.length_append] at hfuel
        omega
      rw [extract_sof fuel hbuffer hsome, hparse]
      cases hverdict : verdict (frameSof :: rest) with
      | incomplete =>
        rw [Framing.parse_of_incomplete hverdict]
        exact ⟨rfl, Framing.parse_of_incomplete hverdict, length_of_incomplete hverdict⟩
      | skip =>
        rw [Framing.parse_of_skip hverdict]
        exact ih rest hlength
      | frame f size =>
        rw [Framing.parse_of_frame hverdict]
        have hshorter : ((frameSof :: rest).drop size).length < fuel := by
          have hframe : framing.verdict (frameSof :: rest) = .frame f size := hverdict
          have hpos := (framing.size_bounds hframe).1
          rw [List.length_drop]
          simp only [List.length_cons] at hlength ⊢
          omega
        obtain ⟨hframes, hawaits, hkept⟩ := ih _ hshorter
        exact ⟨congrArg (f :: ·) hframes, hawaits, hkept⟩

variable {protocol : BridgeProtocol} {buffer rest chunk : List UInt8}

/-- The bound on the buffer is never reached. -/
theorem push_spec (h : framing.Awaits buffer rest) (protocol : BridgeProtocol) (chunk : List UInt8) :
    (push protocol buffer chunk).1 = (framing.parse (rest ++ chunk)).1 ∧
      framing.Awaits (push protocol buffer chunk).2 (framing.parse (rest ++ chunk)).2 ∧
      (push protocol buffer chunk).2.length < longestFrameBytes := by
  obtain ⟨hframes, hawaits, hkept⟩ := extract_spec ((buffer ++ chunk).length + 1) (buffer ++ chunk) (Nat.lt_succ_self _)
  have hwithin : ¬protocol.maxAccumulatorBytes <
      (extract ((buffer ++ chunk).length + 1) (buffer ++ chunk)).2.length := by
    simp only [longestFrameBytes, frameOverheadBytes, maxFramePayloadBytes] at hkept
    cases protocol <;> simp only [BridgeProtocol.maxAccumulatorBytes] <;> omega
  rw [push, if_neg hwithin, ← h.parse_append]
  exact ⟨hframes, hawaits, hkept⟩

/-- However a stream arrives, its frames are those of the whole. -/
theorem pushAll_spec (h : framing.Awaits buffer rest) (protocol : BridgeProtocol) (chunks : List (List UInt8)) :
    (pushAll protocol buffer chunks).1 = (framing.parse (rest ++ chunks.flatten)).1 ∧
      framing.Awaits (pushAll protocol buffer chunks).2 (framing.parse (rest ++ chunks.flatten)).2 := by
  induction chunks generalizing buffer rest with
  | nil =>
    have hrest : framing.verdict rest = .incomplete := by
      have hverdict := Framing.verdict_rest (F := framing) buffer
      rwa [h] at hverdict
    rw [List.flatten_nil, List.append_nil, Framing.parse_of_incomplete hrest]
    exact ⟨rfl, h⟩
  | cons chunk chunks ih =>
    obtain ⟨hframes, hawaits, -⟩ := push_spec h protocol chunk
    obtain ⟨hframes', hawaits'⟩ := ih hawaits
    rw [List.flatten_cons, ← List.append_assoc, Framing.parse_append]
    rw [pushAll]
    exact ⟨congrArg₂ (· ++ ·) hframes hframes', hawaits'⟩

theorem length_pushAll_lt (protocol : BridgeProtocol) (chunks : List (List UInt8)) (h : framing.Awaits buffer rest)
    (hshort : buffer.length < longestFrameBytes) :
    (pushAll protocol buffer chunks).2.length < longestFrameBytes := by
  induction chunks generalizing buffer rest with
  | nil => exact hshort
  | cons chunk chunks ih =>
    obtain ⟨-, hawaits, hkept⟩ := push_spec h protocol chunk
    exact ih hawaits hkept

/-! ### Encoded frames -/

/-- An encoded frame is read back, whatever follows it. -/
theorem parse_encode {f : BridgeFrame} {bytes : List UInt8} (h : encodeBridgeFrame f.type f.payload = .ok bytes)
    (more : List UInt8) :
    framing.parse (bytes ++ more) = (f :: (framing.parse more).1, (framing.parse more).2) := by
  unfold encodeBridgeFrame at h
  split_ifs at h with hlong
  cases h
  rw [maxFramePayloadBytes] at hlong
  have hlen : (UInt8.ofNat f.payload.length).toNat = f.payload.length := by
    rw [UInt8.toNat_ofNat']
    omega
  have hbytes : [frameSof, f.type, UInt8.ofNat f.payload.length] ++ f.payload ++
        [computeChecksum f.type f.payload] ++ more =
      frameSof :: f.type :: UInt8.ofNat f.payload.length ::
        (f.payload ++ computeChecksum f.type f.payload :: more) := by simp
  have hverdict : framing.verdict (frameSof :: f.type :: UInt8.ofNat f.payload.length ::
        (f.payload ++ computeChecksum f.type f.payload :: more)) =
      .frame f (frameOverheadBytes + f.payload.length) := by
    refine (verdict_sof ..).trans ?_
    rw [hlen, List.getElem?_append_right le_rfl, Nat.sub_self, List.take_left]
    exact if_pos rfl
  have hdrop : (frameSof :: f.type :: UInt8.ofNat f.payload.length ::
        (f.payload ++ computeChecksum f.type f.payload :: more)).drop (frameOverheadBytes + f.payload.length) =
      more := by
    rw [frameOverheadBytes, Nat.add_comm]
    simp only [List.drop_succ_cons]
    rw [List.drop_append, Nat.add_sub_cancel_left, List.drop_of_length_le (Nat.le_succ _)]
    rfl
  rw [hbytes, Framing.parse_of_frame hverdict, hdrop]

theorem parse_encoded {frames : List BridgeFrame} {encoded : List (List UInt8)}
    (h : List.Forall₂ (fun f bytes => encodeBridgeFrame f.type f.payload = .ok bytes) frames encoded) :
    framing.parse encoded.flatten = (frames, []) := by
  induction h with
  | nil => rfl
  | cons hframe _ ih => rw [List.flatten_cons, parse_encode hframe, ih]

/-- The reader of either protocol finds the same frames however a stream was cut,
finds exactly the frames that were encoded, and never keeps as much as a frame. -/
theorem reads_stream (protocol : BridgeProtocol) :
    (∀ chunks chunks' : List (List UInt8), chunks.flatten = chunks'.flatten →
      (pushAll protocol [] chunks).1 = (pushAll protocol [] chunks').1) ∧
    (∀ (frames : List BridgeFrame) (encoded chunks : List (List UInt8)),
      List.Forall₂ (fun f bytes => encodeBridgeFrame f.type f.payload = .ok bytes) frames encoded →
      chunks.flatten = encoded.flatten → (pushAll protocol [] chunks).1 = frames) ∧
    ∀ chunks : List (List UInt8), (pushAll protocol [] chunks).2.length < longestFrameBytes := by
  have hempty : framing.Awaits [] [] := rfl
  refine ⟨?_, ?_, ?_⟩
  · intro chunks chunks' hflatten
    rw [(pushAll_spec hempty protocol chunks).1, (pushAll_spec hempty protocol chunks').1, hflatten]
  · intro frames encoded chunks hencoded hflatten
    rw [(pushAll_spec hempty protocol chunks).1, List.nil_append, hflatten, parse_encoded hencoded]
  · intro chunks
    exact length_pushAll_lt protocol chunks hempty (by decide)

/-- The stream of two `RESET` frames with noise before them, cut inside both. -/
theorem reads_stream_cut :
    (pushAll .sx127x [] [[0x00, 0xAA, 0x01], [0x00, 0x01, 0xAA], [0x01, 0x00, 0x01]]).1 =
        (pushAll .sx127x [] [[0x00, 0xAA, 0x01, 0x00, 0x01, 0xAA, 0x01, 0x00, 0x01]]).1 ∧
      (pushAll .sx127x [] [[0xAA], [0x01, 0x00, 0x01, 0xAA, 0x01], [0x00, 0x01]]).1 =
        [⟨0x01, []⟩, ⟨0x01, []⟩] ∧
      (pushAll .sx127x [] [[0xAA, 0x01]]).2.length < longestFrameBytes := by
  refine ⟨(reads_stream .sx127x).1 _ _ rfl, ?_, (reads_stream .sx127x).2.2 _⟩
  have hencoded : encodeBridgeFrame 0x01 [] = .ok [0xAA, 0x01, 0x00, 0x01] := rfl
  exact (reads_stream .sx127x).2.1 _ [[0xAA, 0x01, 0x00, 0x01], [0xAA, 0x01, 0x00, 0x01]] _
    (.cons hencoded (.cons hencoded .nil)) rfl

end BridgeFrameReader
end Arald
