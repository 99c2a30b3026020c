import Arald.Foundations.Runs
import Arald.Transports.Fragments
import Arald.Transports.Links

/-!
# A LoRa serial link beside a TCP connection

The peer at the other end of a LoRa serial link transmits packets, each in
fragments that may interleave with those of others; every fragment arrives. The
packets that the receiving transport hands to its handlers are compared with what
`TcpTransport` hands over for the same packets.
-/

namespace Arald

open Foundations

/-- JSON text of packets; a line break behind it makes no difference. -/
structure PacketText where
  stringify : Packet → Buffer
  /-- `decodePacket(bytes.toString("utf8"))`, `none` when it throws. -/
  parse : Buffer → Option Packet
  parse_newline : ∀ bytes, parse (bytes ++ [0x0a]) = parse bytes

def encodePacket (c : PacketText) (packet : Packet) : Buffer := c.stringify packet ++ [0x0a]

/-- The two LoRa serial transports. -/
inductive LoraVersion where
  | sx1276
  | sx1262

def LoraVersion.connectionId : LoraVersion → String
  | .sx1276 => "lora-serial"
  | .sx1262 => "lora-serial-sx1262"

structure LoraReceiver where
  link : LoraSerialTransport
  reassembler : FragmentReassembler

namespace LoraReceiver

def handleReceivedFrame (c : PacketText) (version : LoraVersion) (s : LoraReceiver)
    (frame : Buffer) : LoraReceiver × List LinkCallback :=
  if frame.length ≤ radioHeaderBytes then (s, [])
  else
    let (msgId, index, total, rest) := decodeRadioFragmentHeader frame
    let added := s.reassembler.addFragment ⟨version.connectionId, msgId, index, total, rest⟩
    match added.2.bind c.parse with
    | none => (⟨s.link, added.1⟩, [])
    | some packet =>
      let next := s.link.receive packet
      (⟨next.1, added.1⟩, next.2)

end LoraReceiver

/-- The packets among the callbacks, each with the peer it is attributed to. -/
def handedOn (callbacks : List LinkCallback) : List (Packet × Option String) :=
  callbacks.filterMap fun
    | .packet packet fromPeerId => some (packet, fromPeerId)
    | _ => none

/-- A call of `transmitPacket` that is not over. -/
structure Transmission where
  msgId : Buffer
  packet : Packet
  /-- Fragments delivered so far. -/
  sent : ℕ

structure RadioLink where
  /-- Whom the receiver was connected to at the start, if the handshake was over. -/
  handshake : Option String
  underWay : List Transmission
  receiver : LoraReceiver
  /-- The packets whose last fragment was delivered. -/
  transmitted : List Packet
  handed : List (Packet × Option String)

inductive RadioEvent where
  /-- The peer begins to transmit a packet, under four fresh random bytes. -/
  | began (msgId : Buffer) (packet : Packet)
  /-- The next fragment of a transmission is delivered. -/
  | delivered (index : ℕ)

namespace RadioLink

def create (handshake : Option String) : RadioLink :=
  ⟨handshake, [], ⟨⟨handshake⟩, .create⟩, [], []⟩

def begin (c : PacketText) (mtu : ℕ) (s : RadioLink) (msgId : Buffer) (packet : Packet) :
    Option RadioLink :=
  if (s.underWay.length : ℤ) < maxConcurrentReassemblies ∧ msgId.length = 4 ∧
      msgId ∉ s.underWay.map Transmission.msgId then
    match transmitPacket mtu (encodePacket c packet) msgId with
    | .ok _ => some { s with underWay := s.underWay ++ [⟨msgId, packet, 0⟩] }
    | .error _ => none
  else none

def deliver (c : PacketText) (version : LoraVersion) (mtu : ℕ) (s : RadioLink) (index : ℕ) :
    Option RadioLink := do
  let t ← s.underWay[index]?
  let frames ← (transmitPacket mtu (encodePacket c t.packet) t.msgId).toOption
  let frame ← frames[t.sent]?
  let next := s.receiver.handleReceivedFrame c version frame
  let arrived := { s with receiver := next.1, handed := s.handed ++ handedOn next.2 }
  if t.sent + 1 < frames.length then
    return { arrived with underWay := s.underWay.set index { t with sent := t.sent + 1 } }
  else
    return { arrived with
      underWay := s.underWay.eraseIdx index, transmitted := s.transmitted ++ [t.packet] }

def step (c : PacketText) (version : LoraVersion) (mtu : ℕ) (s : RadioLink) :
    RadioEvent → Option RadioLink
  | .began msgId packet => s.begin c mtu msgId packet
  | .delivered index => s.deliver c version mtu index

def system (c : PacketText) (version : LoraVersion) (mtu : ℕ) : System RadioLink RadioEvent where
  Init s := ∃ handshake, s = create handshake
  step := step c version mtu

end RadioLink

/-! ### The same packets over TCP -/

/-- What is read of the packets at the other end. -/
def arrived (c : PacketText) (packets : List Packet) : List Packet :=
  packets.filterMap fun p => c.parse (c.stringify p)

/-- What `TcpTransport` hands over for the packets, one a line on one socket. -/
def TcpTransport.lines (id : String) : TcpTransport → List Packet → List (Packet × Option String)
  | _, [] => []
  | t, packet :: rest =>
    match t.line id packet with
    | none => []
    | some (t, callbacks) => handedOn callbacks ++ t.lines id rest

/-- The peer that a socket or a radio link knows after its first packet. -/
def peerOf (handshake : Option String) (packets : List Packet) : Option String :=
  handshake.or (packets.head?.map Packet.source)

theorem peerOf_concat (handshake : Option String) (packets : List Packet) (packet : Packet) :
    peerOf handshake (packets ++ [packet]) = (peerOf handshake packets).or (some packet.source) := by
  cases handshake with
  | some peer => rfl
  | none =>
    cases packets with
    | nil => rfl
    | cons first rest => rfl

namespace LoraSerialTransport

/-- The packets arrive one after the other. -/
def receiveAll (t : LoraSerialTransport) (packets : List Packet) :
    LoraSerialTransport × List (Packet × Option String) :=
  packets.foldl (fun s p => ((s.1.receive p).1, s.2 ++ handedOn (s.1.receive p).2)) (t, [])

/-- What one packet does to the connection, and to what is handed on. -/
theorem receive_eq (t : LoraSerialTransport) (packet : Packet) :
    (t.receive packet).1 = ⟨t.connection.or (some packet.source)⟩ ∧
      handedOn (t.receive packet).2 =
        if t.connection.or (some packet.source) = some packet.source then
          [(packet, some packet.source)]
        else [] := by
  obtain ⟨connection⟩ := t
  cases connection with
  | none => simp [receive, identifyPeer, handedOn]
  | some peer =>
    by_cases hpeer : peer = packet.source
    · simp [receive, hpeer, handedOn]
    · simp [receive, hpeer, handedOn]

/-- The packets whose source is the peer are handed on, and no others. -/
theorem receiveAll_eq (handshake : Option String) (packets : List Packet) :
    receiveAll ⟨handshake⟩ packets =
      (⟨peerOf handshake packets⟩,
        (packets.filter fun p => some p.source = peerOf handshake packets).map fun p =>
          (p, some p.source)) := by
  induction packets using List.reverseRecOn with
  | nil =>
    cases handshake with
    | none => rfl
    | some peer => rfl
  | append_singleton packets packet ih =>
    obtain ⟨hconnection, hhanded⟩ := receive_eq ⟨peerOf handshake packets⟩ packet
    rw [receiveAll, List.foldl_append, List.foldl_cons, List.foldl_nil, ← receiveAll, ih,
      hconnection, hhanded, ← peerOf_concat, List.filter_append, List.map_append]
    -- the packets before the first one that is known are none
    have hbefore : (packets.filter fun p => some p.source = peerOf handshake packets) =
        packets.filter fun p => some p.source = peerOf handshake (packets ++ [packet]) := by
      rw [peerOf_concat]
      cases hpeer : peerOf handshake packets with
      | some peer => rfl
      | none =>
        obtain rfl : packets = [] := by
          cases packets with
          | nil => rfl
          | cons first rest => cases handshake <;> simp [peerOf] at hpeer
        rfl
    rw [hbefore]
    congr 2
    by_cases hsource : peerOf handshake (packets ++ [packet]) = some packet.source
    · simp [hsource]
    · simp [hsource, eq_comm]

end LoraSerialTransport

namespace TcpTransport

variable {t : TcpTransport} {id : String} {socket : TcpSocket}

/-- Whatever else it does, identifying leaves the socket open and named. -/
theorem identify_named (hsocket : t.wired.get? id = some socket) (peerId : String) :
    ∃ named, (t.identify id peerId).wired.get? id = some named ∧
      named.peerId = some peerId ∧ named.closed = socket.closed := by
  unfold identify
  dsimp only
  rw [sockets_updateSocket]
  cases t.sockets.get? peerId with
  | none =>
    simp only [Option.elim_none, get?_updateSocket, hsocket, if_true, Option.map_some]
    exact ⟨_, rfl, rfl, rfl⟩
  | some existing =>
    simp only [Option.elim_some, destroy, get?_updateSocket, hsocket, if_true, Option.map_some]
    by_cases hsame : id = existing
    · subst hsame
      simp only [if_true]
      exact ⟨_, rfl, rfl, rfl⟩
    · exact ⟨_, if_neg hsame, rfl, rfl⟩

/-- A line on an open socket is handed over, whoever its source is. -/
theorem line_open (hsocket : t.wired.get? id = some socket) (hopen : socket.closed = false)
    (packet : Packet) :
    ∃ t' callbacks, t.line id packet = some (t', callbacks) ∧
      ∃ peer named, handedOn callbacks = [(packet, peer)] ∧
        (knownPeer socket.peerId = true → peer = socket.peerId) ∧
        (knownPeer socket.peerId = false → peer = some packet.source) ∧
        t'.wired.get? id = some named ∧ named.closed = false ∧ named.peerId = peer := by
  unfold line
  rw [hsocket]
  dsimp only
  rw [if_neg (by simp [hopen])]
  by_cases hknown : knownPeer socket.peerId = true
  · rw [if_pos hknown]
    exact ⟨_, _, rfl, socket.peerId, socket, rfl, fun _ => rfl, by simp [hknown], hsocket, hopen, rfl⟩
  · rw [if_neg hknown]
    obtain ⟨named, hnamed, hpeer, hclosed⟩ := identify_named hsocket packet.source
    exact ⟨_, _, rfl, some packet.source, named, rfl, fun h => absurd h hknown, fun _ => rfl, hnamed,
      hclosed.trans hopen, hpeer⟩

theorem length_lines (hsocket : t.wired.get? id = some socket) (hopen : socket.closed = false)
    (packets : List Packet) : (t.lines id packets).length = packets.length := by
  induction packets generalizing t socket with
  | nil => rfl
  | cons packet rest ih =>
    obtain ⟨t', callbacks, hline, peer, named, hhanded, -, -, hnamed, hclosed, -⟩ :=
      line_open hsocket hopen packet
    rw [lines, hline]
    dsimp only
    rw [hhanded, List.singleton_append, List.length_cons, ih hnamed hclosed, List.length_cons]

/-- Packets that all come from the socket's own peer are handed over as that peer's. -/
theorem lines_of_source (hsocket : t.wired.get? id = some socket) (hopen : socket.closed = false)
    {packets : List Packet} (peer : String) (hsource : ∀ p ∈ packets, p.source = peer)
    (hknown : knownPeer socket.peerId = true → socket.peerId = some peer) :
    t.lines id packets = packets.map fun p => (p, some p.source) := by
  induction packets generalizing t socket with
  | nil => rfl
  | cons packet rest ih =>
    obtain ⟨t', callbacks, hline, from', named, hhanded, hold, hnew, hnamed, hclosed, hpeer⟩ :=
      line_open hsocket hopen packet
    have hfirst : packet.source = peer := hsource packet List.mem_cons_self
    have hfrom : from' = some peer := by
      cases hcase : knownPeer socket.peerId with
      | true => rw [hold hcase, hknown hcase]
      | false => rw [hnew hcase, hfirst]
    rw [lines, hline]
    dsimp only
    rw [hhanded, List.singleton_append, List.map_cons, hfrom, hfirst,
      ih hnamed hclosed (fun p hp => hsource p (List.mem_cons_of_mem _ hp))
        (fun _ => hpeer.trans hfrom)]

end TcpTransport

/-- The radio hands on what TCP hands over exactly when every packet is the peer's own. -/
theorem receiveAll_eq_lines_iff {t : TcpTransport} {id : String} {socket : TcpSocket}
    (hsocket : t.wired.get? id = some socket) (hopen : socket.closed = false)
    (packets : List Packet) :
    (LoraSerialTransport.receiveAll ⟨socket.peerId⟩ packets).2 = t.lines id packets ↔
      ∀ p ∈ packets, some p.source = peerOf socket.peerId packets := by
  rw [LoraSerialTransport.receiveAll_eq]
  constructor
  · intro heq p hp
    have hlength := congrArg List.length heq
    rw [TcpTransport.length_lines hsocket hopen, List.length_map] at hlength
    exact of_decide_eq_true (List.length_filter_eq_length_iff.mp hlength p hp)
  · intro hall
    have hfilter : (packets.filter fun p => some p.source = peerOf socket.peerId packets) = packets :=
      List.filter_eq_self.mpr fun p hp => decide_eq_true (hall p hp)
    rw [hfilter]
    cases hpeer : peerOf socket.peerId packets with
    | none =>
      have hnil : packets = [] := by
        cases packets with
        | nil => rfl
        | cons first rest => cases h : socket.peerId <;> simp [peerOf, h] at hpeer
      rw [hnil]
      rfl
    | some peer =>
      rw [TcpTransport.lines_of_source hsocket hopen peer]
      · intro p hp
        exact Option.some.inj ((hall p hp).trans hpeer)
      · intro hknown
        cases h : socket.peerId with
        | none => simp [knownPeer, h] at hknown
        | some known => rwa [h, peerOf, Option.some_or] at hpeer

/-! ### What a radio link hands on -/

theorem LoraSerialTransport.receiveAll_append (t : LoraSerialTransport) (first rest : List Packet) :
    t.receiveAll (first ++ rest) =
      (((t.receiveAll first).1.receiveAll rest).1,
        (t.receiveAll first).2 ++ ((t.receiveAll first).1.receiveAll rest).2) := by
  induction rest using List.reverseRecOn with
  | nil => simp [receiveAll]
  | append_singleton rest packet ih =>
    have hsnoc : ∀ (u : LoraSerialTransport) (l : List Packet), u.receiveAll (l ++ [packet]) =
        (((u.receiveAll l).1.receive packet).1,
          (u.receiveAll l).2 ++ handedOn ((u.receiveAll l).1.receive packet).2) := by
      intro u l
      rw [receiveAll, List.foldl_append]
      rfl
    rw [← List.append_assoc, hsnoc, ih, hsnoc, List.append_assoc]

theorem FragmentReassembler.Holds.congr {r r' : FragmentReassembler} {msgId : String} {total n : ℕ}
    {bytes : ℕ → Buffer} (h : r.Holds msgId total bytes n) (hget : r'.get? msgId = r.get? msgId) :
    r'.Holds msgId total bytes n := by
  rw [Holds, hget]
  exact h

theorem length_fragmentFrame_lt {mtu : ℕ} {encoded msgId : Buffer} {index : ℕ} (hne : encoded ≠ [])
    (hmsgId : msgId.length = 4) (hindex : index < fragmentCount mtu encoded) :
    radioHeaderBytes < (fragmentFrame mtu encoded msgId index).length := by
  have hchunk := List.length_pos_iff.mpr (chunk_ne_nil hne hindex)
  simp only [fragmentFrame, encodeRadioFragmentHeader, writeUInt16BE, List.length_append,
    List.length_cons, List.length_nil, hmsgId, radioHeaderBytes]
  omega

/-- The receiver takes the next fragment of a message, and with the last one its packet. -/
theorem LoraReceiver.handle_fragment (c : PacketText) (version : LoraVersion) {mtu : ℕ}
    {s : LoraReceiver} {msgId : Buffer} {packet : Packet} {n : ℕ}
    (h : s.reassembler.Holds (toHex msgId) (fragmentCount mtu (encodePacket c packet))
      (chunk mtu (encodePacket c packet)) n)
    (hmsgId : msgId.length = 4) (hn : n < fragmentCount mtu (encodePacket c packet))
    (hmax : fragmentCount mtu (encodePacket c packet) ≤ maxFragmentsPerMessage)
    (hpos : 0 < s.reassembler.maxSize)
    (hroom : toHex msgId ∈ s.reassembler.keys ∨ s.reassembler.full = false)
    {next : LoraReceiver × List LinkCallback}
    (hnext : s.handleReceivedFrame c version (fragmentFrame mtu (encodePacket c packet) msgId n) =
      next) :
    next.1.reassembler.maxSize = s.reassembler.maxSize ∧
    (∀ k, k ≠ toHex msgId → next.1.reassembler.get? k = s.reassembler.get? k) ∧
    (if n + 1 < fragmentCount mtu (encodePacket c packet) then
      next.1.link = s.link ∧ handedOn next.2 = [] ∧
        next.1.reassembler.Holds (toHex msgId) (fragmentCount mtu (encodePacket c packet))
          (chunk mtu (encodePacket c packet)) (n + 1)
    else
      (next.1.link, handedOn next.2) = s.link.receiveAll (arrived c [packet]) ∧
        next.1.reassembler.Holds (toHex msgId) (fragmentCount mtu (encodePacket c packet))
          (chunk mtu (encodePacket c packet)) 0) := by
  have hlength : radioHeaderBytes <
      (fragmentFrame mtu (encodePacket c packet) msgId n).length :=
    length_fragmentFrame_lt (by simp [encodePacket]) hmsgId hn
  have hdecode : decodeRadioFragmentHeader
      (fragmentFrame mtu (encodePacket c packet) msgId n) =
        (toHex msgId, n, fragmentCount mtu (encodePacket c packet),
          chunk mtu (encodePacket c packet) n) := by
    have hbound : maxFragmentsPerMessage = 8192 := rfl
    exact decodeRadioFragmentHeader_append hmsgId (by omega) (by omega) _
  obtain ⟨hsize, hframe, hadded⟩ := FragmentReassembler.Holds.addFragment
    ⟨version.connectionId, toHex msgId, n, fragmentCount mtu (encodePacket c packet),
      chunk mtu (encodePacket c packet) n⟩ h rfl rfl rfl hn hmax hpos hroom
  unfold handleReceivedFrame at hnext
  rw [if_neg (by omega), hdecode] at hnext
  dsimp only at hnext
  split_ifs at hadded ⊢ with hmore
  · obtain ⟨hnone, hholds⟩ := hadded
    rw [hnone] at hnext
    obtain rfl := hnext
    exact ⟨hsize, hframe, rfl, rfl, hholds⟩
  · obtain ⟨hsome, hholds⟩ := hadded
    rw [hsome, flatMap_chunk, Option.bind_some, encodePacket, c.parse_newline] at hnext
    have harrived : arrived c [packet] = (c.parse (c.stringify packet)).toList := by
      cases hparse : c.parse (c.stringify packet) with
      | none => simp [arrived, hparse]
      | some read => simp [arrived, hparse]
    rw [harrived]
    cases hparse : c.parse (c.stringify packet) with
    | none =>
      rw [hparse] at hnext
      obtain rfl := hnext
      exact ⟨hsize, hframe, rfl, hholds⟩
    | some read =>
      rw [hparse] at hnext
      obtain rfl := hnext
      refine ⟨hsize, hframe, ?_, hholds⟩
      simp [LoraSerialTransport.receiveAll]

namespace RadioLink

/-- The reassembler has what was delivered of the transmissions under way, each
under its own id, and what was handed on is what the whole packets amount to. -/
structure Carries (c : PacketText) (mtu : ℕ) (s : RadioLink) : Prop where
  bound : (s.underWay.length : ℤ) ≤ maxConcurrentReassemblies
  maxSize : s.receiver.reassembler.maxSize = (maxConcurrentReassemblies : WithTop ℤ)
  distinct : (s.underWay.map Transmission.msgId).Nodup
  length_msgId : ∀ t ∈ s.underWay, t.msgId.length = 4
  sent_lt : ∀ t ∈ s.underWay, t.sent < fragmentCount mtu (encodePacket c t.packet)
  count_le : ∀ t ∈ s.underWay, fragmentCount mtu (encodePacket c t.packet) ≤ maxFragmentsPerMessage
  holds : ∀ t ∈ s.underWay, s.receiver.reassembler.Holds (toHex t.msgId)
    (fragmentCount mtu (encodePacket c t.packet)) (chunk mtu (encodePacket c t.packet)) t.sent
  only : ∀ k, s.receiver.reassembler.get? k ≠ none → ∃ t ∈ s.underWay, k = toHex t.msgId
  received : (s.receiver.link, s.handed) =
    LoraSerialTransport.receiveAll ⟨s.handshake⟩ (arrived c s.transmitted)

variable {c : PacketText} {version : LoraVersion} {mtu : ℕ} {s s' : RadioLink}

theorem toHex_ne {a b : Buffer} (h : a ≠ b) : toHex a ≠ toHex b := fun heq => h (toHex_injective heq)

theorem Carries.create (c : PacketText) (mtu : ℕ) (handshake : Option String) :
    (create handshake).Carries c mtu := by
  constructor
  · change (0 : ℤ) ≤ maxConcurrentReassemblies
    decide
  · rfl
  · exact List.nodup_nil
  · intro t ht
    cases ht
  · intro t ht
    cases ht
  · intro t ht
    cases ht
  · intro t ht
    cases ht
  · intro k hk
    exact absurd rfl hk
  · rfl

theorem transmitPacket_eq {encoded msgId : Buffer} {frames : List Buffer}
    (h : transmitPacket mtu encoded msgId = .ok frames) :
    fragmentCount mtu encoded ≤ maxFragmentsPerMessage ∧
      frames = (List.range (fragmentCount mtu encoded)).map (fragmentFrame mtu encoded msgId) := by
  unfold transmitPacket at h
  dsimp only at h
  split_ifs at h with hmax
  obtain rfl := Except.ok.inj h
  exact ⟨not_lt.mp hmax, rfl⟩

theorem Carries.begin (h : s.Carries c mtu) {msgId : Buffer} {packet : Packet}
    (hstep : s.begin c mtu msgId packet = some s') : s'.Carries c mtu := by
  unfold RadioLink.begin at hstep
  split_ifs at hstep with hfree
  obtain ⟨hroom, hmsgId, hnew⟩ := hfree
  cases hframes : transmitPacket mtu (encodePacket c packet) msgId with
  | error message => simp [hframes] at hstep
  | ok frames =>
    simp only [hframes] at hstep
    obtain rfl := Option.some.inj hstep
    have hmem : ∀ t ∈ s.underWay ++ [⟨msgId, packet, 0⟩], t ∈ s.underWay ∨ t = ⟨msgId, packet, 0⟩ := by
      intro t ht
      simpa using ht
    constructor
    · simp only [List.length_append, List.length_singleton]
      push_cast
      omega
    · exact h.maxSize
    · rw [List.map_append, List.map_singleton]
      exact h.distinct.append (List.nodup_singleton _) (List.disjoint_singleton.mpr hnew)
    · intro t ht
      rcases hmem t ht with hold | rfl
      · exact h.length_msgId t hold
      · exact hmsgId
    · intro t ht
      rcases hmem t ht with hold | rfl
      · exact h.sent_lt t hold
      · exact fragmentCount_pos _ _
    · intro t ht
      rcases hmem t ht with hold | rfl
      · exact h.count_le t hold
      · exact (transmitPacket_eq hframes).1
    · intro t ht
      rcases hmem t ht with hold | rfl
      · exact h.holds t hold
      · rw [FragmentReassembler.Holds, if_pos rfl]
        by_contra hsome
        obtain ⟨t, ht, hid⟩ := h.only _ hsome
        exact hnew (List.mem_map.mpr ⟨t, ht, (toHex_injective hid).symm⟩)
    · intro k hk
      obtain ⟨t, ht, hid⟩ := h.only k hk
      exact ⟨t, List.mem_append_left _ ht, hid⟩
    · exact h.received

/-- A transmission under way has room in the reassembler for its next fragment. -/
theorem Carries.room (h : s.Carries c mtu) {t : Transmission} (ht : t ∈ s.underWay) :
    toHex t.msgId ∈ s.receiver.reassembler.keys ∨ s.receiver.reassembler.full = false := by
  by_cases hmem : toHex t.msgId ∈ s.receiver.reassembler.keys
  · exact .inl hmem
  · right
    -- the keys are ids of the other transmissions
    have hsubset : s.receiver.reassembler.keys ⊆
        (s.underWay.map fun u => toHex u.msgId).erase (toHex t.msgId) := by
      intro k hk
      have hne : k ≠ toHex t.msgId := by
        rintro rfl
        exact hmem hk
      have hfound : s.receiver.reassembler.get? k ≠ none := fun hnone =>
        BoundedFifoMap.get?_eq_none.mp hnone hk
      obtain ⟨u, hu, rfl⟩ := h.only k hfound
      exact (List.mem_erase_of_ne hne).mpr (List.mem_map.mpr ⟨u, hu, rfl⟩)
    have hle := (s.receiver.reassembler.map.nodup_keys.subperm hsubset).length_le
    have hsize : s.receiver.reassembler.size + 1 ≤ s.underWay.length := by
      rw [List.length_erase_of_mem (List.mem_map.mpr ⟨t, ht, rfl⟩), List.length_map] at hle
      have hkeys : s.receiver.reassembler.map.keys.length = s.receiver.reassembler.size :=
        OrderedMap.length_keys _
      have hpos := List.length_pos_of_mem ht
      omega
    have hbound := h.bound
    rw [BoundedFifoMap.full, h.maxSize, decide_eq_false_iff_not, WithTop.coe_le_coe]
    omega

/-- A transmission is replaced by what is left of it. -/
theorem Carries.replace (h : s.Carries c mtu) {before after : List Transmission}
    (left : List Transmission)
    {t : Transmission} (hsplit : s.underWay = before ++ t :: after)
    (hunderWay : s'.underWay = before ++ (left ++ after))
    (hleft : left = [] ∨ ∃ n, left = [{ t with sent := n }])
    (hsent : ∀ u ∈ left, u.sent < fragmentCount mtu (encodePacket c t.packet))
    (hmaxSize : s'.receiver.reassembler.maxSize = s.receiver.reassembler.maxSize)
    (hframe : ∀ k, k ≠ toHex t.msgId →
      s'.receiver.reassembler.get? k = s.receiver.reassembler.get? k)
    (hholds : ∀ u ∈ left, s'.receiver.reassembler.Holds (toHex t.msgId)
      (fragmentCount mtu (encodePacket c t.packet)) (chunk mtu (encodePacket c t.packet)) u.sent)
    (hgone : left = [] → s'.receiver.reassembler.get? (toHex t.msgId) = none)
    (hreceived : (s'.receiver.link, s'.handed) =
      LoraSerialTransport.receiveAll ⟨s'.handshake⟩ (arrived c s'.transmitted)) :
    s'.Carries c mtu := by
  have hsame : ∀ u ∈ left, u.msgId = t.msgId ∧ u.packet = t.packet := by
    intro u hu
    rcases hleft with rfl | ⟨n, rfl⟩
    · cases hu
    · obtain rfl := List.mem_singleton.mp hu
      exact ⟨rfl, rfl⟩
  have hold : ∀ u, u ∈ before ∨ u ∈ after → u ∈ s.underWay := by
    intro u hu
    rw [hsplit]
    rcases hu with hu | hu
    · exact List.mem_append_left _ hu
    · exact List.mem_append_right _ (List.mem_cons_of_mem _ hu)
  have hdistinct := h.distinct
  rw [hsplit, List.map_append, List.map_cons] at hdistinct
  obtain ⟨hbefore, hcons, hapart⟩ := List.nodup_append.mp hdistinct
  obtain ⟨hnew, hafter⟩ := List.nodup_cons.mp hcons
  have hother : ∀ u, u ∈ before ∨ u ∈ after → u.msgId ≠ t.msgId := by
    rintro u (hu | hu) hid
    · exact hapart _ (List.mem_map.mpr ⟨u, hu, rfl⟩) _ List.mem_cons_self hid
    · exact hnew (List.mem_map.mpr ⟨u, hu, hid⟩)
  have hmem : ∀ u ∈ s'.underWay, u ∈ left ∨ u ∈ before ∨ u ∈ after := by
    intro u hu
    rw [hunderWay] at hu
    rcases List.mem_append.mp hu with hu | hu
    · exact .inr (.inl hu)
    · rcases List.mem_append.mp hu with hu | hu
      · exact .inl hu
      · exact .inr (.inr hu)
  have hlength : left.length ≤ 1 := by
    rcases hleft with rfl | ⟨n, rfl⟩ <;> simp
  have htold : t ∈ s.underWay := by
    rw [hsplit]
    simp
  constructor
  · have hbound := h.bound
    rw [hsplit] at hbound
    rw [hunderWay]
    simp only [List.length_append, List.length_cons] at hbound ⊢
    push_cast at hbound ⊢
    omega
  · rw [hmaxSize, h.maxSize]
  · rw [hunderWay, List.map_append, List.map_append]
    rcases hleft with rfl | ⟨n, rfl⟩
    · refine List.nodup_append.mpr ⟨hbefore, hafter, ?_⟩
      intro a ha b hb
      exact hapart a ha b (List.mem_cons_of_mem _ hb)
    · exact hdistinct
  · intro u hu
    rcases hmem u hu with hu | hu
    · rw [(hsame u hu).1]
      exact h.length_msgId t htold
    · exact h.length_msgId u (hold u hu)
  · intro u hu
    rcases hmem u hu with hu | hu
    · rw [(hsame u hu).2]
      exact hsent u hu
    · exact h.sent_lt u (hold u hu)
  · intro u hu
    rcases hmem u hu with hu | hu
    · rw [(hsame u hu).2]
      exact h.count_le t htold
    · exact h.count_le u (hold u hu)
  · intro u hu
    rcases hmem u hu with hu | hu
    · rw [(hsame u hu).1, (hsame u hu).2]
      exact hholds u hu
    · exact (h.holds u (hold u hu)).congr (hframe _ (toHex_ne (hother u hu)))
  · intro k hk
    by_cases hkt : k = toHex t.msgId
    · rcases hleft with rfl | ⟨n, rfl⟩
      · rw [hkt] at hk
        exact absurd (hgone rfl) hk
      · exact ⟨{ t with sent := n }, by simp [hunderWay], hkt⟩
    · rw [hframe k hkt] at hk
      obtain ⟨u, hu, rfl⟩ := h.only k hk
      have hut : u ≠ t := by
        rintro rfl
        exact hkt rfl
      rw [hsplit] at hu
      refine ⟨u, ?_, rfl⟩
      rw [hunderWay]
      rcases List.mem_append.mp hu with hu | hu
      · exact List.mem_append_left _ hu
      · have hu' := (List.mem_cons.mp hu).resolve_left hut
        exact List.mem_append_right _ (List.mem_append_right _ hu')
  · exact hreceived

theorem arrived_concat (c : PacketText) (packets : List Packet) (packet : Packet) :
    arrived c (packets ++ [packet]) = arrived c packets ++ arrived c [packet] :=
  List.filterMap_append

theorem Carries.deliver (h : s.Carries c mtu) {index : ℕ}
    (hstep : s.deliver c version mtu index = some s') : s'.Carries c mtu := by
  unfold RadioLink.deliver at hstep
  obtain ⟨t, ht, hrest⟩ := Option.bind_eq_some_iff.mp hstep
  obtain ⟨frames, hframes, hrest⟩ := Option.bind_eq_some_iff.mp hrest
  obtain ⟨frame, hframe, hrest⟩ := Option.bind_eq_some_iff.mp hrest
  have htransmit : transmitPacket mtu (encodePacket c t.packet) t.msgId = .ok frames := by
    cases hcase : transmitPacket mtu (encodePacket c t.packet) t.msgId with
    | error message => simp [hcase, Except.toOption] at hframes
    | ok frames' => simpa [hcase, Except.toOption] using hframes
  obtain ⟨hmax, rfl⟩ := transmitPacket_eq htransmit
  have hmem : t ∈ s.underWay := List.mem_of_getElem? ht
  have hsent := h.sent_lt t hmem
  obtain rfl : fragmentFrame mtu (encodePacket c t.packet) t.msgId t.sent = frame := by
    rw [List.getElem?_map, List.getElem?_range hsent] at hframe
    exact Option.some.inj hframe
  have hpos : 0 < s.receiver.reassembler.maxSize := by
    rw [h.maxSize]
    exact WithTop.coe_lt_coe.mpr (by decide)
  obtain ⟨hlt, hget⟩ := List.getElem?_eq_some_iff.mp ht
  have hsplit : s.underWay = s.underWay.take index ++ t :: s.underWay.drop (index + 1) := by
    rw [← hget, ← List.drop_eq_getElem_cons hlt, List.take_append_drop]
  obtain ⟨hmaxSize, hother, hcase⟩ := LoraReceiver.handle_fragment c version (h.holds t hmem)
    (h.length_msgId t hmem) hsent hmax hpos (h.room hmem) rfl
  rw [List.length_map, List.length_range] at hrest
  split_ifs at hcase hrest with hmore
  · obtain ⟨hlink, hquiet, hholds⟩ := hcase
    obtain rfl := Option.some.inj hrest
    apply h.replace [{ t with sent := t.sent + 1 }] hsplit
    · rw [List.set_eq_take_append_cons_drop, if_pos hlt]
      rfl
    · exact .inr ⟨_, rfl⟩
    · intro u hu
      obtain rfl := List.mem_singleton.mp hu
      exact hmore
    · exact hmaxSize
    · exact hother
    · intro u hu
      obtain rfl := List.mem_singleton.mp hu
      exact hholds
    · intro hnil
      cases hnil
    · dsimp only
      rw [hlink, hquiet, List.append_nil]
      exact h.received
  · obtain ⟨hhanded, hholds⟩ := hcase
    obtain rfl := Option.some.inj hrest
    apply h.replace [] hsplit
    · exact List.eraseIdx_eq_take_drop_succ _ _
    · exact .inl rfl
    · intro u hu
      cases hu
    · exact hmaxSize
    · exact hother
    · intro u hu
      cases hu
    · intro _
      exact hholds
    · dsimp only
      rw [arrived_concat, LoraSerialTransport.receiveAll_append, ← h.received]
      have hlink := congrArg Prod.fst hhanded
      have hlist := congrArg Prod.snd hhanded
      dsimp only at hlink hlist ⊢
      rw [hlink, hlist]

theorem carries_of_reachable (h : (system c version mtu).Reachable s) : s.Carries c mtu := by
  apply h.invariant (I := fun s => s.Carries c mtu)
  · rintro s ⟨handshake, rfl⟩
    exact Carries.create c mtu handshake
  · intro s event s' hs _ hstep
    cases event with
    | began msgId packet => exact hs.begin hstep
    | delivered index => exact hs.deliver hstep

/-- For the packets that a peer transmits over the radio, the receiver hands on what
a TCP connection in the same state of its handshake hands over, exactly when the
peer is the source of every one of them. -/
theorem handed_eq_lines_iff (h : (system c version mtu).Reachable s) {t : TcpTransport}
    {id : String} {socket : TcpSocket} (hsocket : t.wired.get? id = some socket)
    (hopen : socket.closed = false) (hhandshake : socket.peerId = s.handshake) :
    s.handed = t.lines id (arrived c s.transmitted) ↔
      ∀ p ∈ arrived c s.transmitted,
        some p.source = peerOf s.handshake (arrived c s.transmitted) := by
  have hreceived := (Prod.mk.inj (carries_of_reachable h).received).2
  rw [hreceived, ← hhandshake]
  exact receiveAll_eq_lines_iff hsocket hopen _

/-! ### Packets of the peer and of a third node -/

def asciiBytes (text : String) : Buffer := text.toList.map fun ch => UInt8.ofNat ch.toNat

def samplePacket (id source : String) : Packet where
  version := .undefined
  id := id
  type := .data
  source := source
  destination := .undefined
  ttl := .finite 8
  timestamp := .undefined
  priority := .undefined
  payload := .undefined

def sampleJson (id source : String) : String :=
  "\x7b\"id\":\"" ++ id ++ "\",\"type\":\"DATA\",\"source\":\"" ++ source ++ "\",\"ttl\":8\x7d"

def trimNewlines (bytes : Buffer) : Buffer := (bytes.reverse.dropWhile fun b => b = 0x0a).reverse

/-- The text of three packets: two of the peer's own, and one that it forwards. -/
def sampleText : PacketText where
  stringify packet := asciiBytes (sampleJson packet.id packet.source)
  parse bytes :=
    ([("p1", "peer"), ("p2", "peer"), ("p3", "third")].find? fun e =>
      asciiBytes (sampleJson e.1 e.2) = trimNewlines bytes).map fun e => samplePacket e.1 e.2
  parse_newline bytes := by
    have htrim : trimNewlines (bytes ++ [0x0a]) = trimNewlines bytes := by
      simp [trimNewlines]
    rw [htrim]

/-- A TCP transport with one socket, which the peer has identified. -/
def sampleTcp : TcpTransport :=
  ⟨OrderedMap.empty.set "socket" ⟨some "peer", false, false⟩, OrderedMap.empty.set "peer" "socket"⟩

/-- Two packets of the peer, their fragments interleaved. -/
def ownPackets : List RadioEvent :=
  [ .began [1, 2, 3, 4] (samplePacket "p1" "peer"), .began [5, 6, 7, 8] (samplePacket "p2" "peer"),
    .delivered 0, .delivered 1, .delivered 1, .delivered 0 ]

theorem get?_sampleTcp : sampleTcp.wired.get? "socket" = some ⟨some "peer", false, false⟩ := rfl

theorem handed_eq_lines_iff_ownPackets :
    ∃ s, (system sampleText .sx1262 40).run (create (some "peer")) ownPackets = some s ∧
      s.handed.map (fun e => (e.1.id, e.2)) = [("p2", some "peer"), ("p1", some "peer")] ∧
      s.handed = sampleTcp.lines "socket" (arrived sampleText s.transmitted) := by
  have hrun : ((system sampleText .sx1262 40).run (create (some "peer")) ownPackets).map
      (fun s => (s.handed.map (fun e => (e.1.id, e.2)), s.handshake,
        (arrived sampleText s.transmitted).all fun p =>
          some p.source = peerOf s.handshake (arrived sampleText s.transmitted))) =
        some ([("p2", some "peer"), ("p1", some "peer")], some "peer", true) := by
    decide
  obtain ⟨s, hs, hresult⟩ := Option.map_eq_some_iff.mp hrun
  obtain ⟨hhanded, hrest⟩ := Prod.mk.inj hresult
  obtain ⟨hhandshake, hown⟩ := Prod.mk.inj hrest
  have hiff := handed_eq_lines_iff (System.reachable_of_run ⟨_, rfl⟩ hs) get?_sampleTcp rfl
    hhandshake.symm
  refine ⟨s, hs, hhanded, hiff.mpr ?_⟩
  intro p hp
  exact of_decide_eq_true (List.all_eq_true.mp hown p hp)

/-- One packet that the peer forwards for a third node. -/
def forwardedPacket : List RadioEvent :=
  [ .began [1, 2, 3, 4] (samplePacket "p3" "third"), .delivered 0, .delivered 0 ]

/-- Whatever the packets and the state of the handshake, the radio hands on what TCP does. -/
def HandsOnLikeTcp (version : LoraVersion) : Prop :=
  ∀ (c : PacketText) (mtu : ℕ) (s : RadioLink), (system c version mtu).Reachable s →
    ∀ (t : TcpTransport) (id : String) (socket : TcpSocket), t.wired.get? id = some socket →
      socket.closed = false → socket.peerId = s.handshake →
      s.handed = t.lines id (arrived c s.transmitted)

/-- Over TCP the forwarded packet is handed over; neither radio hands it on. -/
theorem forwarded_not_handed : ¬HandsOnLikeTcp .sx1276 ∧ ¬HandsOnLikeTcp .sx1262 := by
  suffices hno : ∀ version, ¬HandsOnLikeTcp version from ⟨hno _, hno _⟩
  intro version hclaim
  have hrun : ((system sampleText version 40).run (create (some "peer")) forwardedPacket).map
      (fun s => (s.handed.length, s.handshake,
        (sampleTcp.lines "socket" (arrived sampleText s.transmitted)).length)) =
        some (0, some "peer", 1) := by
    cases version <;> decide
  obtain ⟨s, hs, hresult⟩ := Option.map_eq_some_iff.mp hrun
  obtain ⟨hhanded, hrest⟩ := Prod.mk.inj hresult
  obtain ⟨hhandshake, hlines⟩ := Prod.mk.inj hrest
  have heq := hclaim sampleText 40 s (System.reachable_of_run ⟨_, rfl⟩ hs) sampleTcp "socket" _
    get?_sampleTcp rfl hhandshake.symm
  rw [← heq, hhanded] at hlines
  cases hlines

end RadioLink

end Arald
