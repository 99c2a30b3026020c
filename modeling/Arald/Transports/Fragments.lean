import Arald.Foundations.Chunks
import Arald.Ingest.Payloads
import Arald.Store.BoundedFifoMap

/-!
# Packets in fragments

The radio header and `transmitPacket` of the LoRa serial drivers, and
`FragmentReassembler` of `simulated-link.ts`, which collects the fragments of a
bounded number of messages at once.
-/

namespace Arald

open Foundations

def maxConcurrentReassemblies : ℤ := 32

def maxFragmentsPerMessage : ℕ := 8192

def radioHeaderBytes : ℕ := 8

structure Fragment where
  connectionId : String
  msgId : String
  index : ℕ
  total : ℕ
  bytes : Buffer

structure ReassemblyEntry where
  chunks : OrderedMap ℕ Buffer
  total : ℕ

abbrev FragmentReassembler := BoundedFifoMap String ReassemblyEntry

namespace FragmentReassembler

def create : FragmentReassembler := .empty maxConcurrentReassemblies

/-- The entry of the fragment's message, with the fragment in it. -/
def entryWith (r : FragmentReassembler) (fragment : Fragment) : ReassemblyEntry :=
  let entry := (r.get? fragment.msgId).getD ⟨.empty, fragment.total⟩
  { entry with chunks := entry.chunks.set fragment.index fragment.bytes }

/-- Take in a fragment; the last one missing completes its message. -/
def addFragment (r : FragmentReassembler) (fragment : Fragment) :
    FragmentReassembler × Option Buffer :=
  if fragment.total = 0 ∨ maxFragmentsPerMessage < fragment.total ∨
      fragment.total ≤ fragment.index then (r, none)
  else
    let entry := entryWith r fragment
    let r := r.set none fragment.msgId entry
    if entry.chunks.size < entry.total then (r, none)
    else
      match (List.range entry.total).mapM entry.chunks.get? with
      | none => (r, none)
      | some parts => (r.delete fragment.msgId, some parts.flatten)

end FragmentReassembler

/-! ### Sending -/

/-- `writeUInt16BE`. -/
def writeUInt16BE (n : ℕ) : Buffer := [UInt8.ofNat (n / 256), UInt8.ofNat (n % 256)]

/-- `readUInt16BE`. -/
def readUInt16BE (bytes : Buffer) (offset : ℕ) : ℕ :=
  256 * (bytes.getD offset 0).toNat + (bytes.getD (offset + 1) 0).toNat

def encodeRadioFragmentHeader (msgId : Buffer) (index total : ℕ) : Buffer :=
  msgId ++ (writeUInt16BE index ++ writeUInt16BE total)

/-- The header of a frame and what is behind it. -/
def decodeRadioFragmentHeader (bytes : Buffer) : String × ℕ × ℕ × Buffer :=
  (toHex (bytes.take 4), readUInt16BE bytes 4, readUInt16BE bytes 6, bytes.drop radioHeaderBytes)

def usableBytes (mtu : ℕ) : ℕ := max 1 (mtu - radioHeaderBytes)

/-- `Math.max(1, Math.ceil(encoded.length / usableBytes))`. -/
def fragmentCount (mtu : ℕ) (encoded : Buffer) : ℕ :=
  max 1 ((encoded.length + usableBytes mtu - 1) / usableBytes mtu)

/-- `encoded.subarray(index * usableBytes, (index + 1) * usableBytes)`. -/
def chunk (mtu : ℕ) (encoded : Buffer) (index : ℕ) : Buffer :=
  (encoded.drop (index * usableBytes mtu)).take (usableBytes mtu)

def fragmentFrame (mtu : ℕ) (encoded msgId : Buffer) (index : ℕ) : Buffer :=
  encodeRadioFragmentHeader msgId index (fragmentCount mtu encoded) ++ chunk mtu encoded index

/-- The frames that `transmitPacket` transmits, one after the other. -/
def transmitPacket (mtu : ℕ) (encoded msgId : Buffer) : Except String (List Buffer) :=
  let total := fragmentCount mtu encoded
  if maxFragmentsPerMessage < total then
    .error s!"packet too large to fragment over this LoRa link: {total} fragments needed, max {maxFragmentsPerMessage}"
  else .ok ((List.range total).map (fragmentFrame mtu encoded msgId))

theorem usableBytes_pos (mtu : ℕ) : 0 < usableBytes mtu := by
  rw [usableBytes]
  omega

theorem fragmentCount_pos (mtu : ℕ) (encoded : Buffer) : 0 < fragmentCount mtu encoded := by
  rw [fragmentCount]
  omega

/-- The chunks of a message are the message. -/
theorem flatMap_chunk (mtu : ℕ) (encoded : Buffer) :
    (List.range (fragmentCount mtu encoded)).flatMap (chunk mtu encoded) = encoded :=
  Foundations.flatMap_chunk (usableBytes_pos mtu) encoded

/-- A chunk of a message that is not empty is not empty. -/
theorem chunk_ne_nil {mtu : ℕ} {encoded : Buffer} (hne : encoded ≠ []) {index : ℕ}
    (hindex : index < fragmentCount mtu encoded) : chunk mtu encoded index ≠ [] :=
  Foundations.chunk_ne_nil (usableBytes_pos mtu) hne hindex

theorem readUInt16BE_append {front : Buffer} {n : ℕ} (hn : n < 65536) (rest : Buffer) :
    readUInt16BE (front ++ (writeUInt16BE n ++ rest)) front.length = n := by
  have hhigh : n / 256 < 256 := by omega
  have hlow : n % 256 < 256 := by omega
  rw [readUInt16BE, List.getD_append_right _ _ _ _ le_rfl,
    List.getD_append_right _ _ _ _ (Nat.le_add_right _ 1), Nat.sub_self, Nat.add_sub_cancel_left]
  simp only [writeUInt16BE, List.cons_append, List.getD_cons_zero, List.getD_cons_succ,
    UInt8.toNat_ofNat', Nat.reducePow, Nat.mod_eq_of_lt hhigh, Nat.mod_eq_of_lt hlow]
  omega

/-- The header codec gives back what a frame was made of. -/
theorem decodeRadioFragmentHeader_append {msgId : Buffer} {index total : ℕ}
    (hmsgId : msgId.length = 4) (hindex : index < 65536) (htotal : total < 65536) (rest : Buffer) :
    decodeRadioFragmentHeader (encodeRadioFragmentHeader msgId index total ++ rest) =
      (toHex msgId, index, total, rest) := by
  have hfirst : readUInt16BE (msgId ++ (writeUInt16BE index ++ (writeUInt16BE total ++ rest))) 4 =
      index := by
    rw [← hmsgId]
    exact readUInt16BE_append hindex _
  have hsecond : readUInt16BE ((msgId ++ writeUInt16BE index) ++ (writeUInt16BE total ++ rest)) 6 =
      total := by
    have hlength : (msgId ++ writeUInt16BE index).length = 6 := by
      simp [hmsgId, writeUInt16BE]
    rw [← hlength]
    exact readUInt16BE_append htotal _
  have hheader : (encodeRadioFragmentHeader msgId index total).length = radioHeaderBytes := by
    simp [encodeRadioFragmentHeader, writeUInt16BE, hmsgId, radioHeaderBytes]
  rw [decodeRadioFragmentHeader, ← hheader, List.drop_left]
  simp only [encodeRadioFragmentHeader, List.append_assoc] at hfirst hsecond ⊢
  rw [hfirst, hsecond, ← hmsgId, List.take_left]

/-! ### Receiving in order -/

namespace FragmentReassembler

/-- The reassembler has the first fragments of a message, and no others of it. -/
def Holds (r : FragmentReassembler) (msgId : String) (total : ℕ) (bytes : ℕ → Buffer) (n : ℕ) :
    Prop :=
  if n = 0 then r.get? msgId = none
  else ∃ entry, r.get? msgId = some entry ∧ entry.total = total ∧
    entry.chunks.entries = (List.range n).map fun i => (i, bytes i)

variable {r : FragmentReassembler} {fragment : Fragment} {total n : ℕ} {bytes : ℕ → Buffer}

theorem Holds.entries_entryWith (h : r.Holds fragment.msgId total bytes n) (htotal : fragment.total = total)
    (hindex : fragment.index = n) (hbytes : fragment.bytes = bytes n) :
    (entryWith r fragment).total = total ∧
      (entryWith r fragment).chunks.entries = (List.range (n + 1)).map fun i => (i, bytes i) := by
  rw [Holds] at h
  split_ifs at h with hn
  · subst hn
    rw [entryWith, h, hindex, hbytes]
    exact ⟨htotal, rfl⟩
  · obtain ⟨entry, hentry, htotal', hentries⟩ := h
    rw [entryWith, hentry, hindex, hbytes]
    refine ⟨htotal', ?_⟩
    have hnew : n ∉ entry.chunks.entries.map Prod.fst := by
      simp [hentries]
    change OrderedMap.setEntries n (bytes n) entry.chunks.entries = _
    rw [OrderedMap.setEntries_of_notMem n (bytes n) _ hnew, hentries, List.range_succ,
      List.map_append]
    rfl

theorem mapM_eq_some_map {α β : Type} {f : α → Option β} {g : α → β} {l : List α}
    (h : ∀ x ∈ l, f x = some (g x)) : l.mapM f = some (l.map g) := by
  induction l with
  | nil => rfl
  | cons x rest ih =>
    have hrest := ih fun y hy => h y (List.mem_cons_of_mem x hy)
    rw [List.mapM_cons, h x List.mem_cons_self, hrest]
    rfl

/-- The next fragment of a message that has room in the reassembler. -/
theorem Holds.addFragment (fragment : Fragment) (h : r.Holds fragment.msgId total bytes n)
    (htotal : fragment.total = total) (hindex : fragment.index = n)
    (hbytes : fragment.bytes = bytes n) (hn : n < total) (hmax : total ≤ maxFragmentsPerMessage)
    (hpos : 0 < r.maxSize) (hroom : fragment.msgId ∈ r.keys ∨ r.full = false) :
    (r.addFragment fragment).1.maxSize = r.maxSize ∧
    (∀ k, k ≠ fragment.msgId → (r.addFragment fragment).1.get? k = r.get? k) ∧
    (if n + 1 < total then
      (r.addFragment fragment).2 = none ∧
        (r.addFragment fragment).1.Holds fragment.msgId total bytes (n + 1)
    else
      (r.addFragment fragment).2 = some ((List.range total).flatMap bytes) ∧
        (r.addFragment fragment).1.Holds fragment.msgId total bytes 0) := by
  obtain ⟨hentryTotal, hentries⟩ := h.entries_entryWith htotal hindex hbytes
  have hvalid : ¬(fragment.total = 0 ∨ maxFragmentsPerMessage < fragment.total ∨
      fragment.total ≤ fragment.index) := by
    omega
  have hsize : (entryWith r fragment).chunks.size = n + 1 := by
    rw [OrderedMap.size, hentries, List.length_map, List.length_range]
  have hset : ∀ k, BoundedFifoMap.get?
      (BoundedFifoMap.set r none fragment.msgId (entryWith r fragment)) k =
        if k = fragment.msgId then some (entryWith r fragment) else r.get? k :=
    fun k => BoundedFifoMap.get?_set_of_room hpos hroom k
  unfold FragmentReassembler.addFragment
  rw [if_neg hvalid]
  dsimp only
  rw [hsize, hentryTotal]
  split_ifs with hmore
  · refine ⟨BoundedFifoMap.maxSize_set _ _ _ _, ?_, rfl, ?_⟩
    · intro k hk
      rw [hset, if_neg hk]
    · rw [Holds, if_neg (Nat.succ_ne_zero n)]
      exact ⟨_, (hset _).trans (if_pos rfl), hentryTotal, hentries⟩
  · obtain rfl : total = n + 1 := by omega
    have hparts : (List.range (n + 1)).mapM (entryWith r fragment).chunks.get? =
        some ((List.range (n + 1)).map bytes) := by
      apply mapM_eq_some_map
      intro i hi
      rw [OrderedMap.get?_eq_some, hentries]
      exact List.mem_map.mpr ⟨i, hi, rfl⟩
    rw [hparts]
    dsimp only
    refine ⟨?_, ?_, ?_, ?_⟩
    · rw [BoundedFifoMap.maxSize_delete, BoundedFifoMap.maxSize_set]
    · intro k hk
      rw [BoundedFifoMap.get?_delete, if_neg hk, hset, if_neg hk]
    · rw [List.flatMap_def]
    · rw [Holds, if_pos rfl, BoundedFifoMap.get?_delete, if_pos rfl]

end FragmentReassembler

end Arald
