import Arald.Content.Buffers
import Arald.Foundations.Utf8Decoding

/-!
# The logs of a container

The Docker daemon cuts the output of a container into frames, each with a header of eight
bytes that ends in the size of its payload. `demuxLogStream` of `docker-client.ts` decodes
payload by payload. What a read outside of the buffer throws is `none` here, and so is a loop
that does not end in time.
-/

namespace Arald

open Foundations

/-- The rounds of the loop, of which `fuel` may follow. -/
def demuxRounds (buffer : Buffer) : ℕ → ℕ → List (List Char) → Option (List (List Char))
  | 0, _, _ => none
  | fuel + 1, offset, parts =>
    if offset + 8 ≤ buffer.length then do
      let size ← readUInt32BE buffer (offset + 4)
      let payloadStart := offset + 8
      let payloadEnd := payloadStart + size
      if buffer.length < payloadEnd then return parts
      else demuxRounds buffer fuel payloadEnd (parts ++ [decodeUtf8 (subarray buffer payloadStart payloadEnd)])
    else return parts

def demuxLogStream (buffer : Buffer) : Option (List Char) :=
  (demuxRounds buffer (buffer.length + 1) 0 []).map List.flatten

/-! ### Frames -/

/-- A frame as the daemon writes it. -/
structure LogFrame where
  streamType : UInt8
  /-- Three bytes that mean nothing. -/
  padding : UInt8 × UInt8 × UInt8
  payload : Buffer
  payload_lt : payload.length < 2 ^ 32

namespace LogFrame

def header (frame : LogFrame) : Buffer :=
  let size := frame.payload.length
  [frame.streamType, frame.padding.1, frame.padding.2.1, frame.padding.2.2, UInt8.ofNat (size / 2 ^ 24),
    UInt8.ofNat (size / 2 ^ 16), UInt8.ofNat (size / 2 ^ 8), UInt8.ofNat size]

def bytes (frame : LogFrame) : Buffer := frame.header ++ frame.payload

end LogFrame

/-- The bytes begin with a whole frame. -/
def beginsFrame (bytes : Buffer) : Bool := (readUInt32BE bytes 4).any fun size => size + 8 ≤ bytes.length

section
variable {buffer before tail : Buffer} {frame : LogFrame} {frames : List LogFrame}

theorem readUInt32BE_bytes (frame : LogFrame) (rest : Buffer) :
    readUInt32BE (frame.bytes ++ rest) 4 = some frame.payload.length := by
  have hsize := frame.payload_lt
  simp only [readUInt32BE, LogFrame.bytes, LogFrame.header, List.cons_append, List.drop_succ_cons, List.drop_zero,
    UInt8.toNat_ofNat', Option.some.injEq]
  omega

theorem length_bytes (frame : LogFrame) : frame.bytes.length = frame.payload.length + 8 := by
  rw [LogFrame.bytes, List.length_append, Nat.add_comm]
  rfl

theorem subarray_payload (before : Buffer) (frame : LogFrame) (rest : Buffer) :
    subarray (before ++ (frame.bytes ++ rest)) (before.length + 8) (before.length + 8 + frame.payload.length) =
      frame.payload := by
  have hdrop : (frame.bytes ++ rest).drop 8 = frame.payload ++ rest := rfl
  rw [subarray, List.drop_length_add_append, hdrop, Nat.add_sub_cancel_left, List.take_left]

/-- Without a frame to begin with the loop is over. -/
theorem demuxRounds_of_tail (htail : beginsFrame tail = false) (fuel : ℕ) (parts : List (List Char)) :
    demuxRounds (before ++ tail) (fuel + 1) before.length parts = some parts := by
  rw [demuxRounds, List.length_append]
  by_cases hheader : before.length + 8 ≤ before.length + tail.length
  · have hread : 4 + 4 ≤ tail.length := by omega
    obtain ⟨size, hsize⟩ := Option.isSome_iff_exists.mp (readUInt32BE_isSome hread)
    have hbeyond : tail.length < size + 8 := by
      rw [beginsFrame, hsize, Option.any_some, decide_eq_false_iff_not] at htail
      omega
    rw [if_pos hheader, readUInt32BE_append, hsize, Option.bind_eq_bind, Option.bind_some, if_pos (by omega)]
    rfl
  · rw [if_neg hheader]
    rfl

/-- One round reads one frame. -/
theorem demuxRounds_frame (before : Buffer) (frame : LogFrame) (rest : Buffer) (fuel : ℕ)
    (parts : List (List Char)) :
    demuxRounds (before ++ (frame.bytes ++ rest)) (fuel + 1) before.length parts =
      demuxRounds (before ++ (frame.bytes ++ rest)) fuel (before ++ frame.bytes).length
        (parts ++ [decodeUtf8 frame.payload]) := by
  have hlength : (before ++ (frame.bytes ++ rest)).length = before.length + 8 + frame.payload.length + rest.length := by
    rw [List.length_append, List.length_append, length_bytes]
    omega
  have hnext : (before ++ frame.bytes).length = before.length + 8 + frame.payload.length := by
    rw [List.length_append, length_bytes]
    omega
  rw [demuxRounds, if_pos (by omega), readUInt32BE_append, readUInt32BE_bytes, Option.bind_eq_bind, Option.bind_some,
    if_neg (by omega), subarray_payload, hnext]

/-- The loop reads the frames that are left. -/
theorem demuxRounds_frames {fuel : ℕ} (htail : beginsFrame tail = false) (hfuel : frames.length < fuel)
    (before : Buffer) (parts : List (List Char)) :
    demuxRounds (before ++ (frames.flatMap LogFrame.bytes ++ tail)) fuel before.length parts =
      some (parts ++ frames.map fun frame => decodeUtf8 frame.payload) := by
  obtain ⟨fuel, rfl⟩ := Nat.exists_eq_add_one.mpr (Nat.zero_lt_of_lt hfuel)
  induction frames generalizing fuel before parts with
  | nil =>
    rw [List.flatMap_nil, List.nil_append, List.map_nil, List.append_nil]
    exact demuxRounds_of_tail htail fuel parts
  | cons frame frames ih =>
    rw [List.length_cons] at hfuel
    obtain ⟨fuel, rfl⟩ := Nat.exists_eq_add_one.mpr (show 0 < fuel by omega)
    rw [List.flatMap_cons, List.append_assoc, demuxRounds_frame, ← List.append_assoc before, ih _ _ fuel (by omega),
      List.append_assoc, List.map_cons, List.singleton_append]

theorem length_le_flatMap_bytes (frames : List LogFrame) : frames.length ≤ (frames.flatMap LogFrame.bytes).length := by
  induction frames with
  | nil => exact Nat.le_refl 0
  | cons frame frames ih =>
    rw [List.flatMap_cons, List.length_append, List.length_cons, length_bytes]
    omega

/-- Every payload is decoded on its own. -/
theorem demuxLogStream_frames (htail : beginsFrame tail = false) (frames : List LogFrame) :
    demuxLogStream (frames.flatMap LogFrame.bytes ++ tail) =
      some ((frames.map LogFrame.payload).flatMap decodeUtf8) := by
  have hfuel : frames.length < (frames.flatMap LogFrame.bytes ++ tail).length + 1 := by
    have hle := length_le_flatMap_bytes frames
    rw [List.length_append]
    omega
  have hrounds := demuxRounds_frames htail hfuel [] []
  rw [List.nil_append, List.nil_append, List.length_nil] at hrounds
  rw [demuxLogStream, hrounds, Option.map_some, List.flatMap_def, List.map_map]
  rfl

/-! ### Arbitrary bytes -/

/-- What begins with a frame is a frame and a rest. -/
theorem exists_frame {bytes : Buffer} (h : beginsFrame bytes = true) :
    ∃ frame : LogFrame, ∃ rest, bytes = frame.bytes ++ rest := by
  match bytes, h with
  | t :: p :: q :: r :: a :: b :: c :: d :: payload, h =>
    have hsize := size_bytes a b c d
    have ha := a.toNat_lt
    have hb := b.toNat_lt
    have hc := c.toNat_lt
    have hd := d.toNat_lt
    have hle : ((a.toNat * 256 + b.toNat) * 256 + c.toNat) * 256 + d.toNat ≤ payload.length := by
      simpa [beginsFrame, readUInt32BE] using h
    generalize hn : ((a.toNat * 256 + b.toNat) * 256 + c.toNat) * 256 + d.toNat = size at hsize hle
    have hlength : (payload.take size).length = size := List.length_take_of_le hle
    refine ⟨⟨t, (p, q, r), payload.take size, by omega⟩, payload.drop size, ?_⟩
    simp only [LogFrame.bytes, LogFrame.header, hlength, List.cons_append, List.nil_append, List.take_append_drop]
    rw [List.cons.injEq, List.cons.injEq, List.cons.injEq, List.cons.injEq] at hsize
    rw [hsize.1, hsize.2.1, hsize.2.2.1, hsize.2.2.2.1]

/-- All bytes are frames and a tail that begins none. -/
theorem exists_frames (bytes : Buffer) :
    ∃ frames : List LogFrame, ∃ tail, beginsFrame tail = false ∧ bytes = frames.flatMap LogFrame.bytes ++ tail := by
  induction hlength : bytes.length using Nat.strong_induction_on generalizing bytes with
  | h n ih =>
    by_cases hframe : beginsFrame bytes = true
    · obtain ⟨frame, rest, rfl⟩ := exists_frame hframe
      rw [List.length_append, length_bytes] at hlength
      obtain ⟨frames, tail, htail, rfl⟩ := ih rest.length (by omega) rest rfl
      exact ⟨frame :: frames, tail, htail, by rw [List.flatMap_cons, List.append_assoc]⟩
    · exact ⟨[], bytes, Bool.eq_false_iff.mpr hframe, rfl⟩

end

/-! ### The text of the log -/

/-- On arbitrary bytes the loop ends and stays inside. The text of the complete frames is
returned exactly if no frame ends inside a character. -/
theorem demuxLogStream_correct_iff (buffer : Buffer) :
    (∃ text, demuxLogStream buffer = some text) ∧
      ∀ (frames : List LogFrame) (tail : Buffer), beginsFrame tail = false →
        buffer = frames.flatMap LogFrame.bytes ++ tail →
          ((demuxLogStream buffer = some (decodeUtf8 (frames.flatMap LogFrame.payload)) ↔
              CutsBetween none (frames.map LogFrame.payload)) ∧
            ∀ text : List Char, frames.flatMap LogFrame.payload = text.flatMap String.utf8EncodeChar →
              decodeUtf8 (frames.flatMap LogFrame.payload) = text) := by
  constructor
  · obtain ⟨frames, tail, htail, rfl⟩ := exists_frames buffer
    exact ⟨_, demuxLogStream_frames htail frames⟩
  · rintro frames tail htail rfl
    constructor
    · rw [demuxLogStream_frames htail, Option.some.injEq, List.flatMap_def (l := frames)]
      exact flatMap_decodeUtf8_iff _
    · intro text htext
      rw [htext]
      exact decodeUtf8_utf8Encode text

/-- A frame for each byte of an e with a grave accent. -/
def splitFrames : List LogFrame :=
  [⟨1, (0, 0, 0), [0xC3], by decide⟩, ⟨1, (0, 0, 0), [0xA8], by decide⟩]

/-- A text that is split inside a character comes back as two others. -/
theorem demuxLogStream_splitFrames :
    ¬∀ (frames : List LogFrame) (text : List Char),
      frames.flatMap LogFrame.payload = text.flatMap String.utf8EncodeChar →
        demuxLogStream (frames.flatMap LogFrame.bytes) = some text := by
  intro h
  have hwrong : demuxLogStream (splitFrames.flatMap LogFrame.bytes) =
      some [replacementCharacter, replacementCharacter] := by decide
  have hright := h splitFrames ['è'] (by decide)
  rw [hwrong] at hright
  exact absurd hright (by decide)

/-- Two letters in two frames, an empty frame and the beginning of a fourth one. -/
theorem demuxLogStream_correct_iff_letters :
    let frames : List LogFrame :=
      [⟨1, (0, 0, 0), [0x61], by decide⟩, ⟨2, (0, 0, 0), [], by decide⟩, ⟨1, (0, 0, 0), [0x62], by decide⟩]
    decodeUtf8 (frames.flatMap LogFrame.payload) = ['a', 'b'] ∧
      (demuxLogStream (frames.flatMap LogFrame.bytes ++ [1, 0, 0, 0, 0, 0, 0, 5, 0x63]) =
          some (decodeUtf8 (frames.flatMap LogFrame.payload)) ↔
        CutsBetween none (frames.map LogFrame.payload)) := by
  intro frames
  have h := (demuxLogStream_correct_iff (frames.flatMap LogFrame.bytes ++ [1, 0, 0, 0, 0, 0, 0, 5, 0x63])).2 frames
    [1, 0, 0, 0, 0, 0, 0, 5, 0x63] (by decide) rfl
  exact ⟨h.2 ['a', 'b'] (by decide), h.1⟩

end Arald
