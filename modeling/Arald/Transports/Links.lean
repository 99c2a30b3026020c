import Arald.Foundations.OrderedMap
import Arald.Mesh.Packet

/-!
# Links to peers

How the transports keep track of who is at the other end: `tcp.ts`,
`simulated-link.ts` and the two LoRa serial drivers, which agree here. Each of
them learns the peer id from the first packet of a link, and tells the node when
a peer is connected, when it is gone, and which packets came from it.
-/

namespace Arald

open Foundations

/-- A call of the handlers that the node has registered. -/
inductive LinkCallback where
  | connected (peerId : String)
  | disconnected (peerId : String)
  /-- The peer is `undefined` on a link that was refused. -/
  | packet (packet : Packet) (fromPeerId : Option String)

inductive LinkEvent where
  /-- A socket is wired, or a connection is entered, under a new id. -/
  | opened (id : String)
  | packet (id : String) (packet : Packet)
  /-- The close event of a socket, or the close of a connection. -/
  | closed (id : String)

/-- `!peerId` is false: the id is known and not the empty string. -/
def knownPeer (peerId : Option String) : Bool := peerId.any fun p => p ≠ ""

/-! ### TCP -/

structure TcpSocket where
  /-- The id that the first packet revealed. -/
  peerId : Option String
  destroyed : Bool
  closed : Bool

structure TcpTransport where
  /-- Every socket that was wired, by the order of wiring. -/
  wired : OrderedMap String TcpSocket
  /-- The socket tracked for each peer. -/
  sockets : OrderedMap String String

namespace TcpTransport

def updateSocket (t : TcpTransport) (id : String) (f : TcpSocket → TcpSocket) : TcpTransport :=
  match t.wired.get? id with
  | some socket => { t with wired := t.wired.set id (f socket) }
  | none => t

def wireSocket (t : TcpTransport) (id : String) : Option TcpTransport :=
  if t.wired.has id then none
  else some { t with wired := t.wired.set id ⟨none, false, false⟩ }

def destroy (t : TcpTransport) (id : String) : TcpTransport :=
  t.updateSocket id fun socket => { socket with destroyed := true }

/-- The first packet of a socket: a socket that was tracked for the peer is
destroyed, and its own close event will find another one in its place. -/
def identify (t : TcpTransport) (id peerId : String) : TcpTransport :=
  let named := t.updateSocket id fun socket => { socket with peerId := some peerId }
  let alone := (named.sockets.get? peerId).elim named named.destroy
  { alone with sockets := alone.sockets.set peerId id }

def line (t : TcpTransport) (id : String) (packet : Packet) :
    Option (TcpTransport × List LinkCallback) :=
  match t.wired.get? id with
  | none => none
  | some socket =>
    if socket.closed then none
    else if knownPeer socket.peerId then some (t, [.packet packet socket.peerId])
    else
      some (t.identify id packet.source,
        [.connected packet.source, .packet packet (some packet.source)])

def cleanup (t : TcpTransport) (id : String) : Option (TcpTransport × List LinkCallback) :=
  match t.wired.get? id with
  | none => none
  | some socket =>
    if socket.closed then none
    else
      let gone := t.updateSocket id fun socket => { socket with closed := true }
      match socket.peerId with
      | none => some (gone, [])
      | some peerId =>
        if peerId ≠ "" ∧ t.sockets.get? peerId = some id then
          some ({ gone with sockets := gone.sockets.delete peerId }, [.disconnected peerId])
        else some (gone, [])

/-- A socket of the peer is open. -/
def live (t : TcpTransport) (peerId : String) : Bool :=
  t.wired.values.any fun socket =>
    socket.peerId = some peerId ∧ socket.destroyed = false ∧ socket.closed = false

end TcpTransport

/-! ### Simulated links -/

structure SimulatedLinkTransport where
  maxConnections : ℤ
  /-- The peer id of each connection, pending ones included. -/
  connectionsById : OrderedMap String (Option String)
  connectionsByPeerId : OrderedMap String String

namespace SimulatedLinkTransport

def closeConnection (t : SimulatedLinkTransport) (id : String) :
    SimulatedLinkTransport × List LinkCallback :=
  match t.connectionsById.get? id with
  | none => (t, [])
  | some peerId =>
    let gone := { t with connectionsById := t.connectionsById.delete id }
    match peerId with
    | none => (gone, [])
    | some peerId =>
      if peerId = "" then (gone, [])
      else if t.connectionsByPeerId.get? peerId = some id then
        ({ gone with connectionsByPeerId := gone.connectionsByPeerId.delete peerId },
          [.disconnected peerId])
      else (gone, [.disconnected peerId])

/-- The connection becomes that of the peer. -/
def assign (t : SimulatedLinkTransport) (id peerId : String) : SimulatedLinkTransport :=
  { t with
    connectionsById :=
      if t.connectionsById.has id then t.connectionsById.set id (some peerId)
      else t.connectionsById
    connectionsByPeerId := t.connectionsByPeerId.set peerId id }

/-- The first packet of a connection: a connection that the peer had is closed. -/
def handleIdentified (t : SimulatedLinkTransport) (id peerId : String) :
    SimulatedLinkTransport × List LinkCallback :=
  match t.connectionsByPeerId.get? peerId with
  | none =>
    if t.maxConnections ≤ t.connectionsByPeerId.size then t.closeConnection id
    else (t.assign id peerId, [.connected peerId])
  | some existing =>
    let closed := t.closeConnection existing
    (closed.1.assign id peerId, closed.2 ++ [.connected peerId])

def acceptConnection (t : SimulatedLinkTransport) (id : String) : Option SimulatedLinkTransport :=
  if t.connectionsById.has id then none
  else some { t with connectionsById := t.connectionsById.set id none }

/-- A packet is complete; on a connection that is gone it is dropped. -/
def receive (t : SimulatedLinkTransport) (id : String) (packet : Packet) :
    SimulatedLinkTransport × List LinkCallback :=
  match t.connectionsById.get? id with
  | none => (t, [])
  | some peerId =>
    if knownPeer peerId then (t, [.packet packet peerId])
    else
      let next := t.handleIdentified id packet.source
      let refused := (t.connectionsByPeerId.get? packet.source).isNone ∧
        t.maxConnections ≤ t.connectionsByPeerId.size
      (next.1, next.2 ++ [.packet packet (if refused then peerId else some packet.source)])

def live (t : SimulatedLinkTransport) (peerId : String) : Bool :=
  t.connectionsById.values.any fun p => p = some peerId

end SimulatedLinkTransport

/-! ### LoRa serial -/

structure LoraSerialTransport where
  /-- The peer of the only connection. -/
  connection : Option String

namespace LoraSerialTransport

def identifyPeer (t : LoraSerialTransport) (peerId : String) :
    LoraSerialTransport × List LinkCallback :=
  ({ t with connection := some peerId }, [.connected peerId])

/-- A packet is complete; it is handed on when the peer is its source. -/
def receive (t : LoraSerialTransport) (packet : Packet) :
    LoraSerialTransport × List LinkCallback :=
  let next := if t.connection.isNone then t.identifyPeer packet.source else (t, [])
  (next.1,
    if next.1.connection = some packet.source then
      next.2 ++ [.packet packet (some packet.source)]
    else next.2)

def stop (t : LoraSerialTransport) : LoraSerialTransport × List LinkCallback :=
  match t.connection with
  | none => (t, [])
  | some peerId => ({ t with connection := none }, [.disconnected peerId])

def live (t : LoraSerialTransport) (peerId : String) : Bool := t.connection = some peerId

end LoraSerialTransport

/-! ### Any transport -/

inductive TransportKind where
  | tcp
  | simulatedLink (maxConnections : ℤ)
  | loraSerial

inductive LinkTransport where
  | tcp (t : TcpTransport)
  | simulatedLink (t : SimulatedLinkTransport)
  | loraSerial (t : LoraSerialTransport)

namespace LinkTransport

/-- The transport before its first link. -/
def create : TransportKind → LinkTransport
  | .tcp => .tcp ⟨.empty, .empty⟩
  | .simulatedLink maxConnections => .simulatedLink ⟨maxConnections, .empty, .empty⟩
  | .loraSerial => .loraSerial ⟨none⟩

def step : LinkTransport → LinkEvent → Option (LinkTransport × List LinkCallback)
  | .tcp t, .opened id => (t.wireSocket id).map fun t => (.tcp t, [])
  | .tcp t, .packet id packet => (t.line id packet).map fun next => (.tcp next.1, next.2)
  | .tcp t, .closed id => (t.cleanup id).map fun next => (.tcp next.1, next.2)
  | .simulatedLink t, .opened id =>
    (t.acceptConnection id).map fun t => (.simulatedLink t, [])
  | .simulatedLink t, .packet id packet =>
    let next := t.receive id packet
    some (.simulatedLink next.1, next.2)
  | .simulatedLink t, .closed id =>
    let next := t.closeConnection id
    some (.simulatedLink next.1, next.2)
  | .loraSerial _, .opened _ => none
  | .loraSerial t, .packet _ packet =>
    let next := t.receive packet
    some (.loraSerial next.1, next.2)
  | .loraSerial t, .closed _ =>
    let next := t.stop
    some (.loraSerial next.1, next.2)

/-- The transport has a link to the peer that is neither closed nor given up. -/
def live : LinkTransport → String → Bool
  | .tcp t, peerId => t.live peerId
  | .simulatedLink t, peerId => t.live peerId
  | .loraSerial t, peerId => t.live peerId

end LinkTransport

/-! ### A link comes, and goes before another one comes -/

/-- The callbacks for the peer, told apart as coming and going in turn; `none`
when one comes twice, or goes without having come. -/
def flips (peerId : String) : Bool → List LinkCallback → Option Bool
  | up, [] => some up
  | up, .connected p :: rest =>
    if p = peerId then (if up then none else flips peerId true rest) else flips peerId up rest
  | up, .disconnected p :: rest =>
    if p = peerId then (if up then flips peerId false rest else none) else flips peerId up rest
  | up, .packet _ _ :: rest => flips peerId up rest

theorem flips_append {peerId : String} {up mid : Bool} {first rest : List LinkCallback}
    (h : flips peerId up first = some mid) :
    flips peerId up (first ++ rest) = flips peerId mid rest := by
  induction first generalizing up with
  | nil =>
    obtain rfl := Option.some.inj h
    rfl
  | cons callback tail ih =>
    rw [List.cons_append]
    cases callback with
    | connected p =>
      rw [flips] at h ⊢
      split_ifs at h ⊢ with hp hup
      · exact ih h
      · exact ih h
    | disconnected p =>
      rw [flips] at h ⊢
      split_ifs at h ⊢ with hp hup
      · exact ih h
      · exact ih h
    | packet packet fromPeerId => exact ih h

namespace TcpTransport

@[simp] theorem sockets_updateSocket (t : TcpTransport) (id : String) (f : TcpSocket → TcpSocket) :
    (t.updateSocket id f).sockets = t.sockets := by
  rw [updateSocket]
  split <;> rfl

theorem get?_updateSocket (t : TcpTransport) (id k : String) (f : TcpSocket → TcpSocket) :
    (t.updateSocket id f).wired.get? k =
      if k = id then (t.wired.get? id).map f else t.wired.get? k := by
  rw [updateSocket]
  cases h : t.wired.get? id with
  | none =>
    by_cases hk : k = id
    · rw [if_pos hk, hk]
      exact h
    · rw [if_neg hk]
  | some socket => exact OrderedMap.get?_set _ _ _ _

/-- Every tracked socket is open and that of its peer, and every open socket of
the peer is the one that is tracked. -/
structure Tracks (t : TcpTransport) (peerId : String) : Prop where
  tracked : ∀ p id, t.sockets.get? p = some id →
    ∃ socket, t.wired.get? id = some socket ∧ socket.peerId = some p ∧ socket.closed = false
  named : ∀ id socket, t.wired.get? id = some socket → socket.peerId ≠ some ""
  unnamed : ∀ id socket, t.wired.get? id = some socket → socket.peerId = none →
    socket.destroyed = false
  sole : ∀ id socket, t.wired.get? id = some socket → socket.peerId = some peerId →
    socket.closed = false → t.sockets.get? peerId = some id ∧ socket.destroyed = false

variable {t t' : TcpTransport} {peerId id : String} {callbacks : List LinkCallback}

theorem Tracks.live_eq (h : t.Tracks peerId) : t.live peerId = (t.sockets.get? peerId).isSome := by
  rw [Bool.eq_iff_iff, live, List.any_eq_true, Option.isSome_iff_exists]
  constructor
  · rintro ⟨socket, hsocket, hlive⟩
    obtain ⟨id, hid⟩ := OrderedMap.mem_values.mp hsocket
    obtain ⟨hpeer, -, hclosed⟩ := of_decide_eq_true hlive
    exact ⟨id, (h.sole id socket (OrderedMap.get?_eq_some.mpr hid) hpeer hclosed).1⟩
  · rintro ⟨id, hid⟩
    obtain ⟨socket, hsocket, hpeer, hclosed⟩ := h.tracked peerId id hid
    refine ⟨socket, OrderedMap.mem_values.mpr ⟨id, OrderedMap.get?_eq_some.mp hsocket⟩, ?_⟩
    exact decide_eq_true ⟨hpeer, (h.sole id socket hsocket hpeer hclosed).2, hclosed⟩

theorem Tracks.wireSocket (h : t.Tracks peerId) (hstep : t.wireSocket id = some t') :
    t'.Tracks peerId ∧ t'.live peerId = t.live peerId := by
  unfold TcpTransport.wireSocket at hstep
  split_ifs at hstep with hnew
  obtain rfl := Option.some.inj hstep
  have hnone : t.wired.get? id = none := by simpa [OrderedMap.has] using hnew
  have htracks : Tracks { t with wired := t.wired.set id ⟨none, false, false⟩ } peerId := by
    constructor
    · intro p k hk
      obtain ⟨socket, hsocket, hrest⟩ := h.tracked p k hk
      refine ⟨socket, ?_, hrest⟩
      have hne : k ≠ id := by
        rintro rfl
        rw [hnone] at hsocket
        cases hsocket
      exact (OrderedMap.get?_set_of_ne _ _ hne).trans hsocket
    · intro k socket hk
      rw [OrderedMap.get?_set] at hk
      split_ifs at hk
      · obtain rfl := Option.some.inj hk
        simp
      · exact h.named k socket hk
    · intro k socket hk hpeer
      rw [OrderedMap.get?_set] at hk
      split_ifs at hk
      · obtain rfl := Option.some.inj hk
        rfl
      · exact h.unnamed k socket hk hpeer
    · intro k socket hk hpeer hclosed
      rw [OrderedMap.get?_set] at hk
      split_ifs at hk
      · obtain rfl := Option.some.inj hk
        cases hpeer
      · exact h.sole k socket hk hpeer hclosed
  exact ⟨htracks, by rw [htracks.live_eq, h.live_eq]⟩

/-- Identifying names the socket and destroys the one that was tracked for the peer. -/
theorem get?_identify {socket : TcpSocket} (hsocket : t.wired.get? id = some socket)
    (hother : t.sockets.get? peerId ≠ some id) (k : String) :
    (t.identify id peerId).wired.get? k =
      if k = id then some { socket with peerId := some peerId }
      else if t.sockets.get? peerId = some k then
        (t.wired.get? k).map fun s => { s with destroyed := true }
      else t.wired.get? k := by
  unfold identify
  dsimp only
  rw [sockets_updateSocket]
  cases htracked : t.sockets.get? peerId with
  | none =>
    simp only [Option.elim_none, get?_updateSocket, hsocket, Option.map_some, reduceCtorEq,
      if_false]
  | some existing =>
    have hne : existing ≠ id := by
      rintro rfl
      exact hother htracked
    simp only [Option.elim_some, destroy, get?_updateSocket, hsocket, Option.map_some,
      Option.some.injEq, if_neg hne]
    by_cases hk : k = existing
    · subst hk
      simp [hne]
    · rw [if_neg hk, if_neg (fun h : existing = k => hk h.symm)]

theorem sockets_identify (k : String) :
    (t.identify id peerId).sockets.get? k = if k = peerId then some id else t.sockets.get? k := by
  unfold identify
  dsimp only
  rw [sockets_updateSocket]
  cases t.sockets.get? peerId with
  | none => simp only [Option.elim_none, sockets_updateSocket, OrderedMap.get?_set]
  | some existing =>
    simp only [Option.elim_some, destroy, sockets_updateSocket, OrderedMap.get?_set]

theorem Tracks.identify (h : t.Tracks peerId) {socket : TcpSocket} {source : String}
    (hsocket : t.wired.get? id = some socket) (hclosed : socket.closed = false)
    (hnew : socket.peerId = none) (hsource : source ≠ "")
    (halone : source = peerId → t.sockets.get? peerId = none) :
    (t.identify id source).Tracks peerId := by
  have hother : t.sockets.get? source ≠ some id := by
    intro htracked
    obtain ⟨s, hs, hpeer, -⟩ := h.tracked source id htracked
    obtain rfl := Option.some.inj (hsocket.symm.trans hs)
    rw [hnew] at hpeer
    cases hpeer
  -- the socket destroyed in favour of the new one belongs to the source
  have hgone : ∀ {k s}, t.sockets.get? source = some k → t.wired.get? k = some s →
      s.peerId = some source := by
    intro k s hk hs
    obtain ⟨s', hs', hpeer, -⟩ := h.tracked source k hk
    obtain rfl := Option.some.inj (hs.symm.trans hs')
    exact hpeer
  constructor
  · intro p k hk
    rw [sockets_identify] at hk
    rw [get?_identify hsocket hother]
    split_ifs at hk with hp
    · obtain rfl := Option.some.inj hk
      exact ⟨_, if_pos rfl, by rw [hp], hclosed⟩
    · obtain ⟨s, hs, hpeer, hopen⟩ := h.tracked p k hk
      have hne : k ≠ id := by
        rintro rfl
        obtain rfl := Option.some.inj (hsocket.symm.trans hs)
        rw [hnew] at hpeer
        cases hpeer
      have hkept : t.sockets.get? source ≠ some k := fun hk' =>
        hp (Option.some.inj (hpeer.symm.trans (hgone hk' hs)))
      exact ⟨s, by rw [if_neg hne, if_neg hkept, hs], hpeer, hopen⟩
  · intro k s hs
    rw [get?_identify hsocket hother] at hs
    split_ifs at hs with hk hdestroyed
    · obtain rfl := Option.some.inj hs
      simpa using hsource
    · obtain ⟨s', hs', rfl⟩ := Option.map_eq_some_iff.mp hs
      exact h.named k s' hs'
    · exact h.named k s hs
  · intro k s hs hpeer
    rw [get?_identify hsocket hother] at hs
    split_ifs at hs with hk hdestroyed
    · obtain rfl := Option.some.inj hs
      cases hpeer
    · obtain ⟨s', hs', rfl⟩ := Option.map_eq_some_iff.mp hs
      rw [hgone hdestroyed hs'] at hpeer
      cases hpeer
    · exact h.unnamed k s hs hpeer
  · intro k s hs hpeer hopen
    rw [get?_identify hsocket hother] at hs
    rw [sockets_identify]
    split_ifs at hs with hk hdestroyed
    · obtain rfl := Option.some.inj hs
      obtain rfl := Option.some.inj hpeer
      exact ⟨by rw [if_pos rfl, hk], h.unnamed id socket hsocket hnew⟩
    · obtain ⟨s', hs', rfl⟩ := Option.map_eq_some_iff.mp hs
      have hsame : source = peerId := Option.some.inj ((hgone hdestroyed hs').symm.trans hpeer)
      rw [hsame, halone hsame] at hdestroyed
      cases hdestroyed
    · obtain ⟨htracked, hkept⟩ := h.sole k s hs hpeer hopen
      have hne : peerId ≠ source := by
        rintro rfl
        rw [halone rfl] at htracked
        cases htracked
      exact ⟨by rw [if_neg hne, htracked], hkept⟩

/-- The packet would reveal the peer id of its socket. -/
def reveals (t : TcpTransport) (id : String) : Bool :=
  (t.wired.get? id).any fun socket => !knownPeer socket.peerId

theorem Tracks.line (h : t.Tracks peerId) {packet : Packet}
    (hcond : t.reveals id = true →
      packet.source ≠ "" ∧ (packet.source = peerId → t.sockets.get? peerId = none))
    (hstep : t.line id packet = some (t', callbacks)) :
    t'.Tracks peerId ∧ flips peerId (t.live peerId) callbacks = some (t'.live peerId) := by
  unfold TcpTransport.line at hstep
  cases hsocket : t.wired.get? id with
  | none => simp [hsocket] at hstep
  | some socket =>
    simp only [hsocket] at hstep
    split_ifs at hstep with hclosed hknown
    · obtain ⟨rfl, rfl⟩ := Prod.mk.inj (Option.some.inj hstep)
      exact ⟨h, rfl⟩
    · obtain ⟨rfl, rfl⟩ := Prod.mk.inj (Option.some.inj hstep)
      obtain ⟨hsource, halone⟩ := hcond (by simp [reveals, hsocket, hknown])
      have hnew : socket.peerId = none := by
        cases hpeer : socket.peerId with
        | none => rfl
        | some p =>
          have hempty : p = "" := by simpa [knownPeer, hpeer] using hknown
          exact absurd (hempty ▸ hpeer) (h.named id socket hsocket)
      have htracks := h.identify hsocket (by simpa using hclosed) hnew hsource halone
      refine ⟨htracks, ?_⟩
      rw [htracks.live_eq, h.live_eq, sockets_identify]
      by_cases hp : packet.source = peerId
      · simp [flips, hp, halone hp]
      · simp [flips, hp, Ne.symm hp]

/-- A socket is closed, and tracked no longer. -/
theorem Tracks.close (h : t.Tracks peerId) {socket : TcpSocket}
    (hsocket : t.wired.get? id = some socket) (sockets : OrderedMap String String)
    (hsockets : ∀ p k, sockets.get? p = some k ↔ t.sockets.get? p = some k ∧ k ≠ id) :
    Tracks { (t.updateSocket id fun s => { s with closed := true }) with sockets := sockets }
      peerId := by
  have hget : ∀ k, (t.updateSocket id fun s => { s with closed := true }).wired.get? k =
      if k = id then some { socket with closed := true } else t.wired.get? k := by
    intro k
    rw [get?_updateSocket, hsocket]
    rfl
  constructor
  · intro p k hk
    obtain ⟨hold, hne⟩ := (hsockets p k).mp hk
    rw [hget, if_neg hne]
    exact h.tracked p k hold
  · intro k s hs
    rw [hget] at hs
    split_ifs at hs
    · obtain rfl := Option.some.inj hs
      exact h.named id socket hsocket
    · exact h.named k s hs
  · intro k s hs hpeer
    rw [hget] at hs
    split_ifs at hs
    · obtain rfl := Option.some.inj hs
      exact h.unnamed id socket hsocket hpeer
    · exact h.unnamed k s hs hpeer
  · intro k s hs hpeer hopen
    rw [hget] at hs
    split_ifs at hs with hk
    · obtain rfl := Option.some.inj hs
      cases hopen
    · obtain ⟨htracked, hkept⟩ := h.sole k s hs hpeer hopen
      exact ⟨(hsockets peerId k).mpr ⟨htracked, hk⟩, hkept⟩

theorem Tracks.cleanup (h : t.Tracks peerId)
    (hstep : t.cleanup id = some (t', callbacks)) :
    t'.Tracks peerId ∧ flips peerId (t.live peerId) callbacks = some (t'.live peerId) := by
  unfold TcpTransport.cleanup at hstep
  cases hsocket : t.wired.get? id with
  | none => simp [hsocket] at hstep
  | some socket =>
    simp only [hsocket] at hstep
    split_ifs at hstep with hclosed
    have howner : ∀ {p}, t.sockets.get? p = some id → socket.peerId = some p := by
      intro p hp
      obtain ⟨s, hs, hpeer, -⟩ := h.tracked p id hp
      obtain rfl := Option.some.inj (hsocket.symm.trans hs)
      exact hpeer
    by_cases hany : ∃ p, t.sockets.get? p = some id
    · obtain ⟨p, hp⟩ := hany
      have hpeer := howner hp
      have hnamed : p ≠ "" := by
        rintro rfl
        exact h.named id socket hsocket hpeer
      simp only [hpeer, if_pos (And.intro hnamed hp)] at hstep
      obtain ⟨rfl, rfl⟩ := Prod.mk.inj (Option.some.inj hstep)
      have htracks := h.close hsocket (t.sockets.delete p) (by
        intro q k
        rw [OrderedMap.get?_delete]
        split_ifs with hq
        · subst hq
          simp [hp, eq_comm]
        · constructor
          · intro hk
            refine ⟨hk, ?_⟩
            rintro rfl
            exact hq (Option.some.inj ((howner hk).symm.trans hpeer))
          · exact And.left)
      rw [sockets_updateSocket]
      refine ⟨htracks, ?_⟩
      rw [htracks.live_eq, h.live_eq, OrderedMap.get?_delete]
      by_cases hq : p = peerId
      · simp [flips, ← hq, hp]
      · simp [flips, hq, Ne.symm hq]
    · have hquiet : some (t.updateSocket id (fun s => { s with closed := true }),
          ([] : List LinkCallback)) = some (t', callbacks) := by
        cases hpeer : socket.peerId with
        | none => simpa only [hpeer] using hstep
        | some p =>
          have hno : ¬(p ≠ "" ∧ t.sockets.get? p = some id) := fun hp => hany ⟨p, hp.2⟩
          simpa only [hpeer, if_neg hno] using hstep
      obtain ⟨rfl, rfl⟩ := Prod.mk.inj (Option.some.inj hquiet)
      have htracks := h.close hsocket t.sockets (by
        intro q k
        constructor
        · intro hk
          refine ⟨hk, ?_⟩
          rintro rfl
          exact hany ⟨q, hk⟩
        · exact And.left)
      have hsame : { (t.updateSocket id fun s => { s with closed := true }) with
          sockets := t.sockets } = t.updateSocket id fun s => { s with closed := true } := by
        rw [← sockets_updateSocket t id fun s => { s with closed := true }]
      rw [hsame] at htracks
      exact ⟨htracks, by rw [htracks.live_eq, h.live_eq, sockets_updateSocket]; rfl⟩

end TcpTransport

namespace SimulatedLinkTransport

/-- The two maps of a transport say the same. -/
structure Agree (t : SimulatedLinkTransport) : Prop where
  same : ∀ p id, t.connectionsByPeerId.get? p = some id ↔ t.connectionsById.get? id = some (some p)
  named : ∀ id, t.connectionsById.get? id ≠ some (some "")

variable {t t' : SimulatedLinkTransport} {peerId id : String}

theorem Agree.live_eq (h : t.Agree) (peerId : String) :
    t.live peerId = (t.connectionsByPeerId.get? peerId).isSome := by
  rw [Bool.eq_iff_iff, live, List.any_eq_true, Option.isSome_iff_exists]
  constructor
  · rintro ⟨p, hp, hlive⟩
    obtain ⟨id, hid⟩ := OrderedMap.mem_values.mp hp
    obtain rfl := of_decide_eq_true hlive
    exact ⟨id, (h.same peerId id).mpr (OrderedMap.get?_eq_some.mpr hid)⟩
  · rintro ⟨id, hid⟩
    have hentry := OrderedMap.get?_eq_some.mp ((h.same peerId id).mp hid)
    exact ⟨some peerId, OrderedMap.mem_values.mpr ⟨id, hentry⟩, by simp⟩

/-- What closing can do: nothing, drop a pending connection, or end that of a peer. -/
theorem Agree.closeConnection_cases (h : t.Agree) (id : String) :
    (t.connectionsById.get? id = none ∧ t.closeConnection id = (t, [])) ∨
    (t.connectionsById.get? id = some none ∧
      t.closeConnection id = ({ t with connectionsById := t.connectionsById.delete id }, [])) ∨
    ∃ p, t.connectionsById.get? id = some (some p) ∧ t.connectionsByPeerId.get? p = some id ∧
      t.closeConnection id =
        (⟨t.maxConnections, t.connectionsById.delete id, t.connectionsByPeerId.delete p⟩,
          [.disconnected p]) := by
  unfold closeConnection
  cases hentry : t.connectionsById.get? id with
  | none => exact .inl ⟨rfl, rfl⟩
  | some entry =>
    cases entry with
    | none => exact .inr (.inl ⟨rfl, rfl⟩)
    | some p =>
      have hp : t.connectionsByPeerId.get? p = some id := (h.same p id).mpr hentry
      have hnamed : p ≠ "" := by
        rintro rfl
        exact h.named id hentry
      refine .inr (.inr ⟨p, rfl, hp, ?_⟩)
      dsimp only
      rw [if_neg hnamed, if_pos hp]

theorem Agree.closeConnection (h : t.Agree) (id peerId : String) :
    (t.closeConnection id).1.Agree ∧
      flips peerId (t.live peerId) (t.closeConnection id).2 =
        some ((t.closeConnection id).1.live peerId) := by
  rcases h.closeConnection_cases id with ⟨-, heq⟩ | ⟨hentry, heq⟩ | ⟨p, hentry, hp, heq⟩
  · rw [heq]
    exact ⟨h, rfl⟩
  · have hagree : Agree { t with connectionsById := t.connectionsById.delete id } := by
      constructor
      · intro q k
        dsimp only
        rw [h.same, OrderedMap.get?_delete]
        split_ifs with hk
        · simp [hk, hentry]
        · rfl
      · intro k
        dsimp only
        rw [OrderedMap.get?_delete]
        split_ifs
        · simp
        · exact h.named k
    rw [heq]
    exact ⟨hagree, by rw [hagree.live_eq, h.live_eq]; rfl⟩
  · have hagree : Agree ⟨t.maxConnections, t.connectionsById.delete id,
        t.connectionsByPeerId.delete p⟩ := by
      constructor
      · intro q k
        dsimp only
        rw [OrderedMap.get?_delete, OrderedMap.get?_delete]
        by_cases hq : q = p
        · subst hq
          by_cases hk : k = id
          · simp [hk]
          · rw [if_pos rfl, if_neg hk, ← h.same q k, hp]
            simp [Ne.symm hk]
        · by_cases hk : k = id
          · subst hk
            rw [if_neg hq, if_pos rfl, h.same q k, hentry]
            simp [Ne.symm hq]
          · rw [if_neg hq, if_neg hk, h.same q k]
      · intro k
        dsimp only
        rw [OrderedMap.get?_delete]
        split_ifs
        · simp
        · exact h.named k
    rw [heq]
    refine ⟨hagree, ?_⟩
    rw [hagree.live_eq, h.live_eq]
    dsimp only
    rw [OrderedMap.get?_delete]
    by_cases hpeer : p = peerId
    · simp [flips, ← hpeer, hp]
    · simp [flips, hpeer, Ne.symm hpeer]

/-- A pending connection becomes that of a peer without one. -/
theorem Agree.assign (h : t.Agree) (peerId : String) {source : String}
    (hpending : t.connectionsById.get? id = some none)
    (hfree : t.connectionsByPeerId.get? source = none) (hsource : source ≠ "") :
    (t.assign id source).Agree ∧
      flips peerId (t.live peerId) [.connected source] =
        some ((t.assign id source).live peerId) := by
  have hhas : t.connectionsById.has id = true := by simp [OrderedMap.has, hpending]
  have heq : t.assign id source =
      ⟨t.maxConnections, t.connectionsById.set id (some source),
        t.connectionsByPeerId.set source id⟩ := by
    rw [SimulatedLinkTransport.assign, if_pos hhas]
  have hagree : (t.assign id source).Agree := by
    rw [heq]
    constructor
    · intro q k
      dsimp only
      rw [OrderedMap.get?_set, OrderedMap.get?_set]
      by_cases hq : q = source
      · subst hq
        by_cases hk : k = id
        · simp [hk]
        · rw [if_pos rfl, if_neg hk, ← h.same q k, hfree]
          simp [Ne.symm hk]
      · by_cases hk : k = id
        · subst hk
          rw [if_neg hq, if_pos rfl, h.same q k, hpending]
          simp [Ne.symm hq]
        · rw [if_neg hq, if_neg hk, h.same q k]
    · intro k
      dsimp only
      rw [OrderedMap.get?_set]
      split_ifs
      · simpa using hsource
      · exact h.named k
  refine ⟨hagree, ?_⟩
  rw [hagree.live_eq, h.live_eq, heq]
  dsimp only
  rw [OrderedMap.get?_set]
  by_cases hpeer : source = peerId
  · simp [flips, ← hpeer, hfree]
  · simp [flips, hpeer, Ne.symm hpeer]

theorem Agree.handleIdentified (h : t.Agree) (peerId : String) {source : String}
    (hpending : t.connectionsById.get? id = some none) (hsource : source ≠ "") :
    (t.handleIdentified id source).1.Agree ∧
      flips peerId (t.live peerId) (t.handleIdentified id source).2 =
        some ((t.handleIdentified id source).1.live peerId) := by
  unfold SimulatedLinkTransport.handleIdentified
  cases hexisting : t.connectionsByPeerId.get? source with
  | none =>
    dsimp only
    split_ifs
    · exact h.closeConnection id peerId
    · exact h.assign peerId hpending hexisting hsource
  | some existing =>
    dsimp only
    obtain ⟨hagree, hflips⟩ := h.closeConnection existing peerId
    have hentry := (h.same source existing).mp hexisting
    have hne : id ≠ existing := by
      rintro rfl
      rw [hpending] at hentry
      cases hentry
    -- the peer's connection is gone, and the pending one is still there
    obtain ⟨hpending', hfree⟩ : (t.closeConnection existing).1.connectionsById.get? id = some none ∧
        (t.closeConnection existing).1.connectionsByPeerId.get? source = none := by
      rcases h.closeConnection_cases existing with ⟨hno, -⟩ | ⟨hno, -⟩ | ⟨p, hp, -, heq⟩
      · rw [hno] at hentry
        cases hentry
      · rw [hno] at hentry
        cases hentry
      · obtain rfl : p = source := Option.some.inj (Option.some.inj (hp.symm.trans hentry))
        rw [heq]
        exact ⟨(OrderedMap.get?_delete_of_ne _ hne).trans hpending, OrderedMap.get?_delete_self _ _⟩
    obtain ⟨hagree', hflips'⟩ := hagree.assign peerId hpending' hfree hsource
    exact ⟨hagree', by rw [flips_append hflips, hflips']⟩

/-- The packet would reveal the peer id of its connection. -/
def reveals (t : SimulatedLinkTransport) (id : String) : Bool :=
  (t.connectionsById.get? id).any fun peerId => !knownPeer peerId

theorem flips_packet {up : Bool} (packet : Packet) (fromPeerId : Option String) :
    flips peerId up [.packet packet fromPeerId] = some up := rfl

theorem Agree.receive (h : t.Agree) {packet : Packet}
    (hcond : t.reveals id = true → packet.source ≠ "") :
    (t.receive id packet).1.Agree ∧
      flips peerId (t.live peerId) (t.receive id packet).2 =
        some ((t.receive id packet).1.live peerId) := by
  unfold SimulatedLinkTransport.receive
  cases hentry : t.connectionsById.get? id with
  | none => exact ⟨h, rfl⟩
  | some entry =>
    dsimp only
    by_cases hknown : knownPeer entry = true
    · rw [if_pos hknown]
      exact ⟨h, rfl⟩
    · rw [if_neg hknown]
      have hsource := hcond (by simp [reveals, hentry, hknown])
      have hpending : t.connectionsById.get? id = some none := by
        cases entry with
        | none => exact hentry
        | some p =>
          have hempty : p = "" := by simpa [knownPeer] using hknown
          exact absurd (hempty ▸ hentry) (h.named id)
      obtain ⟨hagree, hflips⟩ := h.handleIdentified peerId hpending hsource
      exact ⟨hagree, by rw [flips_append hflips, flips_packet]⟩

theorem Agree.acceptConnection (h : t.Agree) (hstep : t.acceptConnection id = some t') :
    t'.Agree ∧ t'.live peerId = t.live peerId := by
  unfold SimulatedLinkTransport.acceptConnection at hstep
  split_ifs at hstep with hnew
  obtain rfl := Option.some.inj hstep
  have hnone : t.connectionsById.get? id = none := by simpa [OrderedMap.has] using hnew
  have hagree : Agree { t with connectionsById := t.connectionsById.set id none } := by
    constructor
    · intro q k
      dsimp only
      rw [h.same, OrderedMap.get?_set]
      split_ifs with hk
      · simp [hk, hnone]
      · rfl
    · intro k
      dsimp only
      rw [OrderedMap.get?_set]
      split_ifs
      · simp
      · exact h.named k
  exact ⟨hagree, by rw [hagree.live_eq, h.live_eq]⟩

end SimulatedLinkTransport

namespace LoraSerialTransport

variable {t : LoraSerialTransport} {peerId : String}

theorem flips_receive (packet : Packet) :
    flips peerId (t.live peerId) (t.receive packet).2 = some ((t.receive packet).1.live peerId) := by
  unfold receive
  cases hconnection : t.connection with
  | none =>
    by_cases hpeer : packet.source = peerId
    · simp [identifyPeer, flips, live, hconnection, hpeer]
    · simp [identifyPeer, flips, live, hconnection, hpeer]
  | some p =>
    by_cases hsource : p = packet.source
    · simp [flips, hconnection, hsource]
    · simp [flips, hconnection, hsource]

theorem flips_stop : flips peerId (t.live peerId) t.stop.2 = some (t.stop.1.live peerId) := by
  unfold stop
  cases hconnection : t.connection with
  | none => rfl
  | some p =>
    by_cases hpeer : p = peerId
    · simp [flips, live, hconnection, hpeer]
    · simp [flips, live, hconnection, hpeer]

end LoraSerialTransport

namespace LinkTransport

/-- The bookkeeping of the transport is right about the peer. -/
def Sound (peerId : String) : LinkTransport → Prop
  | .tcp t => t.Tracks peerId
  | .simulatedLink t => t.Agree
  | .loraSerial _ => True

/-- A packet reveals a peer id that is not empty, and not on a TCP socket beside
one that is tracked for the peer. -/
def introduces (peerId : String) : LinkTransport → LinkEvent → Bool
  | .tcp t, .packet id packet =>
    !t.reveals id ||
      (packet.source ≠ "" && !(packet.source = peerId && (t.sockets.get? peerId).isSome))
  | .simulatedLink t, .packet id packet => !t.reveals id || packet.source ≠ ""
  | _, _ => true

variable {t t' : LinkTransport} {event : LinkEvent} {callbacks : List LinkCallback} {peerId : String}

theorem sound_create (kind : TransportKind) (peerId : String) :
    (create kind).Sound peerId ∧ (create kind).live peerId = false := by
  cases kind with
  | tcp =>
    refine ⟨?_, rfl⟩
    constructor <;> simp
  | simulatedLink maxConnections =>
    refine ⟨?_, rfl⟩
    constructor <;> simp
  | loraSerial => exact ⟨trivial, rfl⟩

/-- The callbacks of a step tell the comings and goings of the peer in turn. -/
theorem Sound.step (h : t.Sound peerId) (hcond : t.introduces peerId event = true)
    (hstep : t.step event = some (t', callbacks)) :
    t'.Sound peerId ∧ flips peerId (t.live peerId) callbacks = some (t'.live peerId) := by
  cases t with
  | tcp t =>
    cases event with
    | opened id =>
      obtain ⟨next, hnext, hpair⟩ := Option.map_eq_some_iff.mp hstep
      obtain ⟨rfl, rfl⟩ := Prod.mk.inj hpair
      obtain ⟨htracks, hlive⟩ := TcpTransport.Tracks.wireSocket h hnext
      exact ⟨htracks, congrArg some hlive.symm⟩
    | packet id packet =>
      obtain ⟨next, hnext, hpair⟩ := Option.map_eq_some_iff.mp hstep
      obtain ⟨rfl, rfl⟩ := Prod.mk.inj hpair
      refine TcpTransport.Tracks.line h ?_ hnext
      intro hreveals
      have hsource : packet.source ≠ "" ∧
          (packet.source = peerId → t.sockets.get? peerId = none) := by
        simpa [introduces, hreveals, imp_iff_not_or] using hcond
      exact hsource
    | closed id =>
      obtain ⟨next, hnext, hpair⟩ := Option.map_eq_some_iff.mp hstep
      obtain ⟨rfl, rfl⟩ := Prod.mk.inj hpair
      exact TcpTransport.Tracks.cleanup h hnext
  | simulatedLink t =>
    cases event with
    | opened id =>
      obtain ⟨next, hnext, hpair⟩ := Option.map_eq_some_iff.mp hstep
      obtain ⟨rfl, rfl⟩ := Prod.mk.inj hpair
      obtain ⟨hagree, hlive⟩ := SimulatedLinkTransport.Agree.acceptConnection h hnext
      exact ⟨hagree, congrArg some hlive.symm⟩
    | packet id packet =>
      obtain ⟨rfl, rfl⟩ := Prod.mk.inj (Option.some.inj hstep)
      refine SimulatedLinkTransport.Agree.receive h ?_
      intro hreveals
      simpa [introduces, hreveals] using hcond
    | closed id =>
      obtain ⟨rfl, rfl⟩ := Prod.mk.inj (Option.some.inj hstep)
      exact SimulatedLinkTransport.Agree.closeConnection h id peerId
  | loraSerial t =>
    cases event with
    | opened id => cases hstep
    | packet id packet =>
      obtain ⟨rfl, rfl⟩ := Prod.mk.inj (Option.some.inj hstep)
      exact ⟨trivial, LoraSerialTransport.flips_receive packet⟩
    | closed id =>
      obtain ⟨rfl, rfl⟩ := Prod.mk.inj (Option.some.inj hstep)
      exact ⟨trivial, LoraSerialTransport.flips_stop⟩

end LinkTransport

end Arald
