import Arald.Transports.LoraLink

/-!
# Fragments in any order

What a LoRa serial driver reassembles from the frames of several packets, when they
interleave, overtake each other and arrive more than once. A message is given back
with the fragment that was the last one missing; a fragment that comes again later
begins the message anew. The reassembler gives up the oldest of too many messages, so
those count that have arrived since the first fragment of a message.
-/

namespace Arald

open Foundations

namespace FragmentReassembler

/-- `handleReceivedFrame` up to the reassembled bytes. -/
def receiveFrame (version : LoraVersion) (r : FragmentReassembler) (frame : Buffer) :
    FragmentReassembler × Option Buffer :=
  if frame.length ≤ radioHeaderBytes then (r, none)
  else
    let (msgId, index, total, rest) := decodeRadioFragmentHeader frame
    r.addFragment ⟨version.connectionId, msgId, index, total, rest⟩

def receiveFrames (version : LoraVersion) (r : FragmentReassembler) (frames : List Buffer) :
    FragmentReassembler :=
  frames.foldl (fun r frame => (receiveFrame version r frame).1) r

end FragmentReassembler

/-- What the driver does with a frame is decided by what is reassembled. -/
theorem LoraReceiver.handleReceivedFrame_eq (c : PacketText) (version : LoraVersion) (s : LoraReceiver)
    (frame : Buffer) :
    s.handleReceivedFrame c version frame =
      match (s.reassembler.receiveFrame version frame).2.bind c.parse with
      | none => (⟨s.link, (s.reassembler.receiveFrame version frame).1⟩, [])
      | some packet =>
        (⟨(s.link.receive packet).1, (s.reassembler.receiveFrame version frame).1⟩,
          (s.link.receive packet).2) := by
  unfold handleReceivedFrame FragmentReassembler.receiveFrame
  split_ifs <;> rfl

/-- A packet that `transmitPacket` sends under four random bytes. -/
structure RadioMessage (c : PacketText) where
  mtu : ℕ
  packet : Packet
  msgId : Buffer
  frames : List Buffer
  msgId_length : msgId.length = 4
  transmitted : transmitPacket mtu (encodePacket c packet) msgId = .ok frames

/-- One of the frames of a message reaches the receiver. -/
structure FrameArrival (c : PacketText) where
  message : RadioMessage c
  frame : Buffer
  mem_frames : frame ∈ message.frames

namespace RadioMessage

variable {c : PacketText} {version : LoraVersion} {message : RadioMessage c} {r r' : FragmentReassembler}
  {frames : List Buffer} {index : ℕ}

def encoded (message : RadioMessage c) : Buffer := encodePacket c message.packet

def total (message : RadioMessage c) : ℕ := fragmentCount message.mtu message.encoded

def frameAt (message : RadioMessage c) (index : ℕ) : Buffer :=
  fragmentFrame message.mtu message.encoded message.msgId index

def chunkAt (message : RadioMessage c) (index : ℕ) : Buffer := chunk message.mtu message.encoded index

/-- The name under which the reassembler keeps the message. -/
def key (message : RadioMessage c) : String := toHex message.msgId

theorem total_le (message : RadioMessage c) : message.total ≤ maxFragmentsPerMessage :=
  (RadioLink.transmitPacket_eq message.transmitted).1

theorem mem_frames {frame : Buffer} : frame ∈ message.frames ↔ ∃ index < message.total, message.frameAt index = frame := by
  rw [(RadioLink.transmitPacket_eq message.transmitted).2, List.mem_map]
  simp only [List.mem_range]
  rfl

theorem decode_frameAt (hindex : index < message.total) :
    decodeRadioFragmentHeader (message.frameAt index) =
      (message.key, index, message.total, message.chunkAt index) := by
  have htotal : message.total < 65536 := message.total_le.trans_lt (by decide)
  exact decodeRadioFragmentHeader_append message.msgId_length (hindex.trans htotal) htotal _

theorem frameAt_injective {i j : ℕ} (hi : i < message.total) (hj : j < message.total)
    (h : message.frameAt i = message.frameAt j) : i = j := by
  have hdecode := congrArg decodeRadioFragmentHeader h
  rw [decode_frameAt hi, decode_frameAt hj] at hdecode
  exact (Prod.mk.inj (Prod.mk.inj hdecode).2).1

theorem take_frame {frame : Buffer} (h : frame ∈ message.frames) : frame.take 4 = message.msgId := by
  obtain ⟨index, -, rfl⟩ := mem_frames.mp h
  rw [← message.msgId_length]
  simp only [frameAt, fragmentFrame, encodeRadioFragmentHeader, List.append_assoc, List.take_left]

def fragmentAt (message : RadioMessage c) (version : LoraVersion) (index : ℕ) : Fragment :=
  ⟨version.connectionId, message.key, index, message.total, message.chunkAt index⟩

/-- A frame of a message is long enough to be taken for a fragment. -/
theorem receiveFrame_frameAt (hindex : index < message.total) :
    r.receiveFrame version (message.frameAt index) = r.addFragment (message.fragmentAt version index) := by
  have hlength : radioHeaderBytes < (message.frameAt index).length :=
    length_fragmentFrame_lt (by simp [encoded, encodePacket]) message.msgId_length hindex
  rw [FragmentReassembler.receiveFrame, if_neg (not_le.mpr hlength), decode_frameAt hindex]
  rfl

/-! ### One message -/

/-- What the reassembler has of the message, of which these frames have arrived: no
others, and all of them until the message is complete. -/
structure Collected (message : RadioMessage c) (r : FragmentReassembler) (frames : List Buffer) : Prop where
  total : ∀ entry, r.get? message.key = some entry → entry.total = message.total
  arrived : ∀ entry, r.get? message.key = some entry → ∀ i bytes, entry.chunks.get? i = some bytes →
    i < message.total ∧ bytes = message.chunkAt i ∧ message.frameAt i ∈ frames
  kept : ¬message.frames ⊆ frames → ∀ i < message.total, message.frameAt i ∈ frames →
    ∃ entry, r.get? message.key = some entry ∧ i ∈ entry.chunks.keys

theorem Collected.of_absent (hget : r.get? message.key = none)
    (hframes : ∀ frame ∈ frames, frame.take 4 ≠ message.msgId) : message.Collected r frames where
  total := by simp [hget]
  arrived := by simp [hget]
  kept := by
    intro _ i hi hmem
    exact absurd (take_frame (mem_frames.mpr ⟨i, hi, rfl⟩)) (hframes _ hmem)

/-- A frame of another message changes nothing for this one. -/
theorem Collected.other (h : message.Collected r frames) {frame : Buffer}
    (hget : r'.get? message.key = r.get? message.key) (hframe : frame ∉ message.frames) :
    message.Collected r' (frames ++ [frame]) where
  total := by
    rw [hget]
    exact h.total
  arrived := by
    rw [hget]
    intro entry hentry i bytes hbytes
    obtain ⟨hi, hchunk, hmem⟩ := h.arrived entry hentry i bytes hbytes
    exact ⟨hi, hchunk, List.mem_append_left _ hmem⟩
  kept := by
    rw [hget]
    intro hmissing i hi hmem
    refine h.kept (fun hall => hmissing fun f hf => List.mem_append_left _ (hall hf)) i hi ?_
    rcases List.mem_append.mp hmem with hmem | hmem
    · exact hmem
    · rw [← List.mem_singleton.mp hmem] at hframe
      exact absurd (mem_frames.mpr ⟨i, hi, rfl⟩) hframe

theorem Collected.entryWith (version : LoraVersion) (h : message.Collected r frames) (hindex : index < message.total) :
    (r.entryWith (message.fragmentAt version index)).total = message.total ∧
      (∀ i bytes, (r.entryWith (message.fragmentAt version index)).chunks.get? i = some bytes →
        i < message.total ∧ bytes = message.chunkAt i ∧
          message.frameAt i ∈ frames ++ [message.frameAt index]) ∧
      (¬message.frames ⊆ frames → ∀ i < message.total,
        message.frameAt i ∈ frames ++ [message.frameAt index] →
          i ∈ (r.entryWith (message.fragmentAt version index)).chunks.keys) := by
  have hget : r.get? (message.fragmentAt version index).msgId = r.get? message.key := rfl
  rw [FragmentReassembler.entryWith, hget]
  refine ⟨?_, ?_, ?_⟩
  · cases hentry : r.get? message.key with
    | none => rfl
    | some entry => exact h.total entry hentry
  · intro i bytes hbytes
    dsimp only at hbytes
    rw [OrderedMap.get?_set] at hbytes
    split_ifs at hbytes with hsame
    · obtain rfl := hsame
      obtain rfl := Option.some.inj hbytes
      exact ⟨hindex, rfl, List.mem_append_right _ (List.mem_singleton_self _)⟩
    · cases hentry : r.get? message.key with
      | none =>
        rw [hentry] at hbytes
        cases hbytes
      | some entry =>
        rw [hentry] at hbytes
        obtain ⟨hi, hchunk, hmem⟩ := h.arrived entry hentry i bytes hbytes
        exact ⟨hi, hchunk, List.mem_append_left _ hmem⟩
  · intro hmissing i hi hmem
    dsimp only
    rw [OrderedMap.mem_keys_set]
    rcases List.mem_append.mp hmem with hmem | hmem
    · obtain ⟨entry, hentry, hkey⟩ := h.kept hmissing i hi hmem
      rw [hentry]
      exact .inr hkey
    · exact .inl (frameAt_injective hi hindex (List.mem_singleton.mp hmem))

/-- As many chunks as a message has are all of its chunks. -/
theorem mem_keys_of_total_le {chunks : OrderedMap ℕ Buffer} {total : ℕ} (hlt : ∀ i ∈ chunks.keys, i < total)
    (hsize : total ≤ chunks.size) : ∀ i < total, i ∈ chunks.keys := by
  have hsub : chunks.keys.toFinset ⊆ Finset.range total := by
    intro i hi
    exact Finset.mem_range.mpr (hlt i (List.mem_toFinset.mp hi))
  have hcard : (Finset.range total).card ≤ chunks.keys.toFinset.card := by
    rw [Finset.card_range, List.toFinset_card_of_nodup chunks.nodup_keys, OrderedMap.length_keys]
    exact hsize
  intro i hi
  have hall := Finset.eq_of_subset_of_card_le hsub hcard
  exact List.mem_toFinset.mp (hall ▸ Finset.mem_range.mpr hi)

theorem total_le_of_mem_keys {chunks : OrderedMap ℕ Buffer} {total : ℕ} (hall : ∀ i < total, i ∈ chunks.keys) :
    total ≤ chunks.size := by
  have hsub : Finset.range total ⊆ chunks.keys.toFinset := by
    intro i hi
    exact List.mem_toFinset.mpr (hall i (Finset.mem_range.mp hi))
  have hcard := Finset.card_le_card hsub
  rwa [Finset.card_range, List.toFinset_card_of_nodup chunks.nodup_keys, OrderedMap.length_keys] at hcard

/-- One frame of a message that is sheltered in the reassembler. -/
theorem Collected.receiveFrame (version : LoraVersion) (h : message.Collected r frames)
    (hindex : index < message.total)
    {used : Finset String} (hused : r.Shelters used) (hkey : message.key ∈ used)
    {next : FragmentReassembler × Option Buffer}
    (hnext : r.receiveFrame version (message.frameAt index) = next) :
    (next.1.Shelters used ∧ ∀ k ∈ used, k ≠ message.key → next.1.get? k = r.get? k) ∧
      message.Collected next.1 (frames ++ [message.frameAt index]) ∧
      (∀ bytes, next.2 = some bytes →
        bytes = message.encoded ∧ message.frames ⊆ frames ++ [message.frameAt index]) ∧
      (¬message.frames ⊆ frames → message.frames ⊆ frames ++ [message.frameAt index] →
        next.2 = some message.encoded) := by
  obtain ⟨htotal, harrived, hkept⟩ := h.entryWith version hindex
  have hvalid : ¬((message.fragmentAt version index).total = 0 ∨
      maxFragmentsPerMessage < (message.fragmentAt version index).total ∨
        (message.fragmentAt version index).total ≤ (message.fragmentAt version index).index) := by
    have hle := message.total_le
    simp only [fragmentAt]
    omega
  rw [receiveFrame_frameAt hindex, FragmentReassembler.addFragment, if_neg hvalid] at hnext
  generalize r.entryWith (message.fragmentAt version index) = entry at htotal harrived hkept hnext
  obtain ⟨hsheltered, hget⟩ := hused.set hkey entry
  have hlt : ∀ i ∈ entry.chunks.keys, i < message.total := by
    intro i hi
    obtain ⟨bytes, hbytes⟩ := OrderedMap.mem_keys.mp hi
    exact (harrived i bytes (OrderedMap.get?_eq_some.mpr hbytes)).1
  have hmissing : ¬message.frames ⊆ frames ++ [message.frameAt index] → ¬message.frames ⊆ frames :=
    fun hnot hall => hnot fun f hf => List.mem_append_left _ (hall hf)
  have hself : (BoundedFifoMap.set r none message.key entry).get? message.key = some entry := by
    rw [hget _ hkey, if_pos rfl]
  dsimp only at hnext
  by_cases hmore : entry.chunks.size < entry.total
  · rw [if_pos hmore] at hnext
    obtain rfl := hnext
    refine ⟨⟨hsheltered, ?_⟩, ⟨?_, ?_, ?_⟩, by simp, ?_⟩
    · intro k hk hne
      exact (hget k hk).trans (if_neg hne)
    · intro entry' hentry'
      obtain rfl := Option.some.inj (hself.symm.trans hentry')
      exact htotal
    · intro entry' hentry'
      obtain rfl := Option.some.inj (hself.symm.trans hentry')
      exact harrived
    · intro hnot i hi hmem
      exact ⟨entry, hself, hkept (hmissing hnot) i hi hmem⟩
    · intro hbefore hall
      have hkeys : ∀ i < message.total, i ∈ entry.chunks.keys :=
        fun i hi => hkept hbefore i hi (hall (mem_frames.mpr ⟨i, hi, rfl⟩))
      have hle := total_le_of_mem_keys hkeys
      omega
  · have hkeys : ∀ i < message.total, i ∈ entry.chunks.keys := mem_keys_of_total_le hlt (by omega)
    have hchunks : ∀ i ∈ List.range message.total, entry.chunks.get? i = some (message.chunkAt i) := by
      intro i hi
      obtain ⟨bytes, hbytes⟩ := OrderedMap.mem_keys.mp (hkeys i (List.mem_range.mp hi))
      have hget := OrderedMap.get?_eq_some.mpr hbytes
      rw [hget, (harrived i bytes hget).2.1]
    have hall : message.frames ⊆ frames ++ [message.frameAt index] := by
      intro frame hframe
      obtain ⟨i, hi, rfl⟩ := mem_frames.mp hframe
      exact (harrived i _ (hchunks i (List.mem_range.mpr hi))).2.2
    have hbytes : ((List.range message.total).map message.chunkAt).flatten = message.encoded := by
      rw [← List.flatMap_def]
      exact flatMap_chunk _ _
    rw [if_neg hmore, htotal, FragmentReassembler.mapM_eq_some_map hchunks] at hnext
    dsimp only at hnext
    rw [hbytes] at hnext
    obtain rfl := hnext
    have habsent : (BoundedFifoMap.delete (BoundedFifoMap.set r none message.key entry) message.key).get?
        message.key = none := by
      rw [BoundedFifoMap.get?_delete, if_pos rfl]
    refine ⟨⟨hsheltered.delete hkey, ?_⟩, ⟨?_, ?_, ?_⟩, ?_, fun _ _ => rfl⟩
    · intro k hk hne
      exact (BoundedFifoMap.get?_delete ..).trans ((if_neg hne).trans ((hget k hk).trans (if_neg hne)))
    · intro entry' hentry'
      cases habsent.symm.trans hentry'
    · intro entry' hentry'
      cases habsent.symm.trans hentry'
    · intro hnot
      exact absurd hall hnot
    · intro bytes hsome
      exact ⟨(Option.some.inj hsome).symm, hall⟩

end RadioMessage

/-! ### What arrived before -/

namespace FragmentReassembler

variable {version : LoraVersion} {r : FragmentReassembler} {frame : Buffer} {key : String}

theorem addFragment_cases (r : FragmentReassembler) (fragment : Fragment) :
    (r.addFragment fragment).1 = r ∨
      (r.addFragment fragment).1 = BoundedFifoMap.set r none fragment.msgId (r.entryWith fragment) ∨
      (r.addFragment fragment).1 =
        BoundedFifoMap.delete (BoundedFifoMap.set r none fragment.msgId (r.entryWith fragment)) fragment.msgId := by
  unfold addFragment
  split_ifs
  · exact .inl rfl
  · dsimp only
    split_ifs
    · exact .inr (.inl rfl)
    · split
      · exact .inr (.inl rfl)
      · exact .inr (.inr rfl)

theorem maxSize_receiveFrame : (r.receiveFrame version frame).1.maxSize = r.maxSize := by
  unfold receiveFrame
  split_ifs
  · rfl
  · dsimp only
    rcases addFragment_cases r ⟨version.connectionId, _, _, _, _⟩ with h | h | h <;> rw [h]
    · exact BoundedFifoMap.maxSize_set _ _ _ _
    · exact BoundedFifoMap.maxSize_set _ _ _ _

/-- Whatever a frame holds, it concerns the message that its first bytes name. -/
theorem mem_keys_receiveFrame (h : key ∈ (r.receiveFrame version frame).1.keys) :
    key = toHex (frame.take 4) ∨ key ∈ r.keys := by
  unfold receiveFrame at h
  split_ifs at h
  · exact .inr h
  · dsimp only at h
    have hset : ∀ entry : ReassemblyEntry,
        key ∈ (BoundedFifoMap.set r none (decodeRadioFragmentHeader frame).1 entry).keys →
          key = toHex (frame.take 4) ∨ key ∈ r.keys := by
      intro entry hmem
      obtain ⟨v, hv⟩ := OrderedMap.mem_keys.mp hmem
      rcases BoundedFifoMap.get?_of_get?_set (BoundedFifoMap.get?_eq_some.mpr hv) with ⟨rfl, -⟩ | hold
      · exact .inl rfl
      · exact .inr (OrderedMap.mem_keys.mpr ⟨v, BoundedFifoMap.get?_eq_some.mp hold⟩)
    rcases addFragment_cases r ⟨version.connectionId, _, _, _, _⟩ with hr | hr | hr <;> rw [hr] at h
    · exact .inr h
    · exact hset _ h
    · exact hset _ (OrderedMap.mem_keys_delete.mp h).1

theorem receiveFrames_history (version : LoraVersion) (history : List Buffer) :
    (receiveFrames version create history).maxSize = maxConcurrentReassemblies ∧
      ∀ key ∈ (receiveFrames version create history).keys, ∃ frame ∈ history, key = toHex (frame.take 4) := by
  induction history using List.reverseRecOn with
  | nil => exact ⟨rfl, by simp [receiveFrames, create, BoundedFifoMap.keys, BoundedFifoMap.empty, OrderedMap.keys]⟩
  | append_singleton history frame ih =>
    rw [receiveFrames, List.foldl_append]
    refine ⟨maxSize_receiveFrame.trans ih.1, ?_⟩
    intro key hkey
    rcases mem_keys_receiveFrame hkey with rfl | hold
    · exact ⟨frame, by simp, rfl⟩
    · obtain ⟨f, hf, rfl⟩ := ih.2 key hold
      exact ⟨f, List.mem_append_left _ hf, rfl⟩

end FragmentReassembler

/-! ### Several messages -/

namespace FrameArrival

variable {c : PacketText}

/-- Everything of the message is among the arrivals. -/
def Complete (arrivals : List (FrameArrival c)) (message : RadioMessage c) : Prop :=
  message.frames ⊆ arrivals.map FrameArrival.frame

/-- Arrivals of no more messages than are reassembled at once, with different ids of
which the receiver has seen nothing before. -/
structure Concurrent (history : List Buffer) (arrivals : List (FrameArrival c)) : Prop where
  few : (((arrivals.map fun a => a.message.msgId).toFinset.card : ℕ) : ℤ) ≤ maxConcurrentReassemblies
  distinct : ∀ a ∈ arrivals, ∀ b ∈ arrivals, a.message.msgId = b.message.msgId → a.message = b.message
  fresh : ∀ a ∈ arrivals, ∀ frame ∈ history, frame.take 4 ≠ a.message.msgId

/-- The receiver, after what came before and these arrivals. -/
def receiver (version : LoraVersion) (history : List Buffer) (arrivals : List (FrameArrival c)) :
    FragmentReassembler :=
  FragmentReassembler.receiveFrames version .create (history ++ arrivals.map FrameArrival.frame)

def keysOf (arrivals : List (FrameArrival c)) : Finset String :=
  (arrivals.map fun a => a.message.key).toFinset

variable {version : LoraVersion} {history : List Buffer} {arrivals before : List (FrameArrival c)} {a : FrameArrival c}

theorem receiver_nil : receiver version history ([] : List (FrameArrival c)) =
    FragmentReassembler.receiveFrames version .create history := by
  rw [receiver, List.map_nil, List.append_nil]

theorem receiver_concat : receiver version history (before ++ [a]) =
    ((receiver version history before).receiveFrame version a.frame).1 := by
  rw [receiver, receiver, List.map_append, ← List.append_assoc, FragmentReassembler.receiveFrames,
    List.foldl_append]
  rfl

theorem Concurrent.card_keysOf (h : Concurrent history arrivals) :
    (((keysOf arrivals).card : ℕ) : ℤ) ≤ maxConcurrentReassemblies := by
  have himage : keysOf arrivals = (arrivals.map fun a => a.message.msgId).toFinset.image toHex := by
    ext key
    simp [keysOf, RadioMessage.key]
  have hle : (keysOf arrivals).card ≤ (arrivals.map fun a => a.message.msgId).toFinset.card := by
    rw [himage]
    exact Finset.card_image_le
  exact le_trans (by exact_mod_cast hle) h.few

/-- However the arrivals mix, the messages are sheltered, and of each the
reassembler has what has arrived. -/
theorem Concurrent.collected (version : LoraVersion) (h : Concurrent history arrivals) (hbefore : before ⊆ arrivals) :
    (receiver version history before).Shelters (keysOf arrivals) ∧
      ∀ a ∈ arrivals, a.message.Collected (receiver version history before) (before.map FrameArrival.frame) := by
  induction before using List.reverseRecOn with
  | nil =>
    obtain ⟨hmax, hkeys⟩ := FragmentReassembler.receiveFrames_history version history
    rw [← receiver_nil (c := c)] at hmax hkeys
    have habsent : ∀ a ∈ arrivals, a.message.key ∉ (receiver version history ([] : List (FrameArrival c))).keys := by
      intro a ha hmem
      obtain ⟨frame, hframe, hkey⟩ := hkeys _ hmem
      exact h.fresh a ha frame hframe (toHex_injective hkey.symm)
    refine ⟨BoundedFifoMap.Shelters.of_disjoint ?_ ?_, ?_⟩
    · rw [hmax]
      exact WithTop.coe_le_coe.mpr h.card_keysOf
    · intro key hkey hused
      obtain ⟨a, ha, rfl⟩ := List.mem_map.mp (List.mem_toFinset.mp hused)
      exact habsent a ha hkey
    · intro a ha
      exact .of_absent (BoundedFifoMap.get?_eq_none.mpr (habsent a ha)) (by simp)
  | append_singleton before a ih =>
    obtain ⟨hused, hcollected⟩ := ih fun b hb => hbefore (List.mem_append_left _ hb)
    have ha : a ∈ arrivals := hbefore (List.mem_append_right _ (List.mem_singleton_self a))
    have hkeyOf : ∀ b ∈ arrivals, b.message.key ∈ keysOf arrivals := by
      intro b hb
      exact List.mem_toFinset.mpr (List.mem_map.mpr ⟨b, hb, rfl⟩)
    obtain ⟨index, hindex, hframe⟩ := RadioMessage.mem_frames.mp a.mem_frames
    obtain ⟨⟨hused', hget⟩, hown, -, -⟩ :=
      (hcollected a ha).receiveFrame version hindex hused (hkeyOf a ha) rfl
    rw [hframe] at hused' hget hown
    rw [receiver_concat, List.map_append]
    refine ⟨hused', ?_⟩
    intro b hb
    by_cases hsame : b.message.msgId = a.message.msgId
    · rw [h.distinct b hb a ha hsame]
      exact hown
    · refine (hcollected b hb).other (hget _ (hkeyOf b hb) fun hkey => hsame (toHex_injective hkey)) ?_
      intro hmem
      exact hsame ((RadioMessage.take_frame hmem).symm.trans (RadioMessage.take_frame a.mem_frames))

/-- Of at most 32 messages whose fragments come in any order, interleaved and more
than once, nothing but its own bytes is given back, not before all of its fragments
have arrived, and when the last one missing arrives. -/
theorem gives_back (version : LoraVersion) (h : Concurrent history (before ++ [a])) :
    (∀ bytes, ((receiver version history before).receiveFrame version a.frame).2 = some bytes →
      bytes = encodePacket c a.message.packet ∧ Complete (before ++ [a]) a.message) ∧
    (¬Complete before a.message → Complete (before ++ [a]) a.message →
      ((receiver version history before).receiveFrame version a.frame).2 =
        some (encodePacket c a.message.packet)) := by
  obtain ⟨hused, hcollected⟩ := h.collected version (List.subset_append_left before [a])
  have ha : a ∈ before ++ [a] := List.mem_append_right _ (List.mem_singleton_self a)
  have hkey : a.message.key ∈ keysOf (before ++ [a]) :=
    List.mem_toFinset.mpr (List.mem_map.mpr ⟨a, ha, rfl⟩)
  obtain ⟨index, hindex, hframe⟩ := RadioMessage.mem_frames.mp a.mem_frames
  obtain ⟨-, -, hexact, hlast⟩ :=
    (hcollected a ha).receiveFrame version hindex hused hkey rfl
  rw [hframe] at hexact hlast
  unfold Complete
  rw [List.map_append]
  exact ⟨hexact, hlast⟩

open RadioLink

/-- A packet of the peer, over a link of 40 bytes. -/
def sampleMessage (msgId : Buffer) (id : String) (hmsgId : msgId.length = 4)
    (hfits : fragmentCount 40 (encodePacket sampleText (samplePacket id "peer")) ≤ maxFragmentsPerMessage) :
    RadioMessage sampleText where
  mtu := 40
  packet := samplePacket id "peer"
  msgId := msgId
  frames := (List.range (fragmentCount 40 (encodePacket sampleText (samplePacket id "peer")))).map
    (fragmentFrame 40 (encodePacket sampleText (samplePacket id "peer")) msgId)
  msgId_length := hmsgId
  transmitted := if_neg (not_lt.mpr hfits)

def firstMessage : RadioMessage sampleText := sampleMessage [1, 2, 3, 4] "p1" rfl (by decide)

def secondMessage : RadioMessage sampleText := sampleMessage [5, 6, 7, 8] "p2" rfl (by decide)

/-- The frame with the index that a message has. -/
def arrivalOf (message : RadioMessage sampleText) (index : ℕ) (h : message.frameAt index ∈ message.frames) :
    FrameArrival sampleText := ⟨message, message.frameAt index, h⟩

/-- The second fragment of the first message comes twice, before its first one and
behind one of the second message. -/
def mixed : List (FrameArrival sampleText) :=
  [arrivalOf secondMessage 1 (by decide), arrivalOf firstMessage 1 (by decide),
    arrivalOf firstMessage 1 (by decide)]

def lastMissing : FrameArrival sampleText := arrivalOf firstMessage 0 (by decide)

theorem concurrent_mixed : Concurrent [] (mixed ++ [lastMissing]) where
  few := by decide
  distinct := by
    have hmessages : ∀ a ∈ mixed ++ [lastMissing], a.message = firstMessage ∨ a.message = secondMessage := by
      simp [mixed, lastMissing, arrivalOf]
    have hne : firstMessage.msgId ≠ secondMessage.msgId := by decide
    intro a ha b hb hsame
    rcases hmessages a ha with hfirst | hsecond <;> rcases hmessages b hb with hfirst' | hsecond'
    · rw [hfirst, hfirst']
    · rw [hfirst, hsecond'] at hsame
      exact absurd hsame hne
    · rw [hsecond, hfirst'] at hsame
      exact absurd hsame.symm hne
    · rw [hsecond, hsecond']
  fresh := by simp

theorem gives_back_mixed :
    ((receiver .sx1276 [] mixed).receiveFrame .sx1276 lastMissing.frame).2 =
      some (encodePacket sampleText (samplePacket "p1" "peer")) := by
  refine (gives_back .sx1276 concurrent_mixed).2 ?_ ?_
  · unfold Complete
    decide
  · unfold Complete
    decide

end FrameArrival
end Arald
