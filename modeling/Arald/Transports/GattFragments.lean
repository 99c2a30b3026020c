import Arald.Foundations.Runs
import Arald.Transports.Fragments

/-!
# Messages over Bluetooth

The fragment codec of `ble-link.js`, which the phone uses, and its counterpart in
`wifi-gatt-protocol.ts` of the hub. A fragment names its message by one byte, taken from
a counter that wraps, so the 257th message has the id of the first again.

The two differ in their limits, in whether a fragment has to agree with the fragments
before it on the number of fragments, and in what they return. Which message an entry
of the reassembler was begun by is recorded beside a run.
-/

namespace Arald

open Foundations

/-! ### Sending -/

def fragmentHeaderSize : ℕ := 5

/-- A message that was cut into fragments. -/
structure GattMessage where
  msgId : UInt8
  bytes : Buffer
  payloadSize : ℕ
  payloadSize_pos : 0 < payloadSize
  total_le : chunkCount payloadSize bytes ≤ maxFragmentsPerMessage

namespace GattMessage

def total (m : GattMessage) : ℕ := chunkCount m.payloadSize m.bytes

def payload (m : GattMessage) (index : ℕ) : Buffer := Foundations.chunk m.payloadSize m.bytes index

/-- What goes over the air: the header and a part of the message. -/
def wire (m : GattMessage) (index : ℕ) : Buffer :=
  m.msgId :: (writeUInt16BE index ++ (writeUInt16BE m.total ++ m.payload index))

def fragments (m : GattMessage) : List Buffer := (List.range m.total).map m.wire

/-- The message cut for the MTU; an error does not use up the id. -/
def cut (tooSmall tooLarge : ℕ → String) (nextMsgId : UInt8) (bytes : Buffer) (mtu : ℕ) :
    Except String (GattMessage × UInt8) :=
  if hmtu : mtu ≤ fragmentHeaderSize then .error (tooSmall mtu)
  else if htotal : maxFragmentsPerMessage < chunkCount (mtu - fragmentHeaderSize) bytes then
    .error (tooLarge (chunkCount (mtu - fragmentHeaderSize) bytes))
  else
    .ok (⟨nextMsgId, bytes, mtu - fragmentHeaderSize, Nat.sub_pos_of_lt (not_le.mp hmtu), not_lt.mp htotal⟩,
      nextMsgId + 1)

/-- The payloads of a message are the message. -/
theorem flatMap_payload (m : GattMessage) : (List.range m.total).flatMap m.payload = m.bytes :=
  Foundations.flatMap_chunk m.payloadSize_pos m.bytes

theorem getElem?_fragments {m : GattMessage} {index : ℕ} {bytes : Buffer}
    (h : m.fragments[index]? = some bytes) : index < m.total ∧ bytes = m.wire index := by
  obtain ⟨hlength, hget⟩ := List.getElem?_eq_some_iff.mp h
  rw [fragments, List.length_map, List.length_range] at hlength
  refine ⟨hlength, ?_⟩
  rw [← hget]
  simp [fragments]

end GattMessage

/-! ### Receiving -/

structure GattEntry where
  chunks : OrderedMap ℕ Buffer
  total : ℕ
  bytesSoFar : ℕ

/-- What the two reassemblers differ in. -/
structure ReassemblyRules (ω : Type) where
  maxConcurrentReassemblies : ℤ
  totalsAgree : Bool
  maxReassembledBytes : Option ℕ
  result : Buffer → ω

abbrev GattReassembler := BoundedFifoMap UInt8 GattEntry

namespace GattReassembler

variable {ω : Type}

/-- Put a fragment into the entry of its message; the last one missing completes it. -/
def fill (rules : ReassemblyRules ω) (r : GattReassembler) (msgId : UInt8) (entry : GattEntry) (index : ℕ)
    (payload : Buffer) : GattReassembler × Option ω :=
  let bytesSoFar := if entry.chunks.has index then entry.bytesSoFar else entry.bytesSoFar + payload.length
  if !entry.chunks.has index && rules.maxReassembledBytes.any fun bound => bound < bytesSoFar then
    (r.delete msgId, none)
  else
    let entry := { entry with chunks := entry.chunks.set index payload, bytesSoFar }
    let r := r.set none msgId entry
    if entry.chunks.size < entry.total then (r, none)
    else
      match (List.range entry.total).mapM entry.chunks.get? with
      | none => (r, none)
      | some parts => (r.delete msgId, some (rules.result parts.flatten))

/-- Find the entry of a fragment within the bounds, or make room for a new one. -/
def place (rules : ReassemblyRules ω) (r : GattReassembler) (msgId : UInt8) (index total : ℕ) (payload : Buffer) :
    GattReassembler × Option ω :=
  match r.get? msgId with
  | none => fill rules (r.set none msgId ⟨.empty, total, 0⟩) msgId ⟨.empty, total, 0⟩ index payload
  | some entry =>
    if rules.totalsAgree && entry.total ≠ total then (r, none)
    else fill rules r msgId entry index payload

def addFragment (rules : ReassemblyRules ω) (r : GattReassembler) (bytes : Buffer) :
    GattReassembler × Option ω :=
  if bytes.length < fragmentHeaderSize then (r, none)
  else
    let msgId := bytes.getD 0 0
    let index := readUInt16BE bytes 1
    let total := readUInt16BE bytes 3
    let payload := bytes.drop fragmentHeaderSize
    if total = 0 ∨ maxFragmentsPerMessage < total ∨ total ≤ index then (r, none)
    else place rules r msgId index total payload

end GattReassembler

/-! ### The phone and the hub -/

namespace BleLink

def maxConcurrentReassemblies : ℤ := 8

def fragmentPacket (nextMsgId : UInt8) (encoded : Buffer) (mtu : ℕ) : Except String (GattMessage × UInt8) :=
  GattMessage.cut (fun mtu => s!"mtu too small to fit the {fragmentHeaderSize}-byte fragment header (got {mtu})")
    (fun total => s!"packet too large to fragment ({total} fragments, max {maxFragmentsPerMessage})")
    nextMsgId encoded mtu

/-- The phone decodes what it has reassembled to text. -/
def rules (decode : Buffer → String) : ReassemblyRules String :=
  ⟨maxConcurrentReassemblies, false, none, decode⟩

def addFragment (decode : Buffer → String) (r : GattReassembler) (bytes : Buffer) :
    GattReassembler × Option String :=
  r.addFragment (rules decode) bytes

end BleLink

namespace WifiGatt

def maxConcurrentReassemblies : ℤ := 4

def maxReassembledBytes : ℕ := 4096

def fragmentBytes (nextMsgId : UInt8) (bytes : Buffer) (mtu : ℕ) : Except String (GattMessage × UInt8) :=
  GattMessage.cut
    (fun mtu => s!"mtu troppo piccolo per contenere l'header di frammento da {fragmentHeaderSize} byte (ricevuto {mtu})")
    (fun total => s!"messaggio troppo grande da frammentare ({total} frammenti, massimo {maxFragmentsPerMessage})")
    nextMsgId bytes mtu

def rules : ReassemblyRules Buffer :=
  ⟨maxConcurrentReassemblies, true, some maxReassembledBytes, id⟩

def addFragment (r : GattReassembler) (bytes : Buffer) : GattReassembler × Option Buffer :=
  r.addFragment rules bytes

end WifiGatt
end Arald
