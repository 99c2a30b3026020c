import Arald.Foundations.Runs
import Arald.Store.BoundedFifoMap
import Arald.Transports.Links

/-!
# Which relays are online

The registry of relays, `relay-registry.ts`, and the callbacks of `addTransport`
that keep its online status: a counter of the connections to each peer, and the
transport last seen with it.
-/

namespace Arald

open Foundations

inductive RelayType where
  | fixed
  | mobile
  deriving DecidableEq

structure RelayRadio where
  ble : Option Bool
  lora : Option Bool

structure RelayStaticFields where
  relayId : String
  type : RelayType
  lat : ℚ
  lon : ℚ
  radio : Option RelayRadio
  operator : Option String
  installedAt : Option ℚ

structure RelayEntry where
  relayId : String
  type : RelayType
  lat : ℚ
  lon : ℚ
  ble : Bool
  lora : Bool
  operator : Option String
  installedAt : ℚ
  online : Bool
  lastSeenAt : Option ℚ
  batteryPercent : Option ℚ
  lastTelemetryAt : Option ℚ

structure RelayRegistry where
  relays : BoundedFifoMap String RelayEntry

namespace RelayRegistry

def get (r : RelayRegistry) (relayId : String) : Option RelayEntry := r.relays.get? relayId

/-- New static fields; the status of a registered relay is carried over. -/
def upsert (r : RelayRegistry) (fields : RelayStaticFields) (now : ℚ) : RelayRegistry :=
  let existing := r.relays.get? fields.relayId
  let entry : RelayEntry := {
    relayId := fields.relayId
    type := fields.type
    lat := fields.lat
    lon := fields.lon
    ble := (fields.radio.bind RelayRadio.ble).getD false
    lora := (fields.radio.bind RelayRadio.lora).getD false
    operator := fields.operator
    installedAt := fields.installedAt.getD now
    online := (existing.map RelayEntry.online).getD false
    lastSeenAt := existing.bind RelayEntry.lastSeenAt
    batteryPercent := existing.bind RelayEntry.batteryPercent
    lastTelemetryAt := existing.bind RelayEntry.lastTelemetryAt }
  { r with relays := r.relays.set none fields.relayId entry }

/-- Change the entry of a relay, if it is registered. -/
def update (r : RelayRegistry) (relayId : String) (f : RelayEntry → RelayEntry) : RelayRegistry :=
  match r.relays.get? relayId with
  | none => r
  | some entry => { r with relays := r.relays.set none relayId (f entry) }

def markOnline (r : RelayRegistry) (relayId : String) (now : ℚ) : RelayRegistry :=
  r.update relayId fun entry => { entry with online := true, lastSeenAt := some now }

def markOffline (r : RelayRegistry) (relayId : String) (now : ℚ) : RelayRegistry :=
  r.update relayId fun entry => { entry with online := false, lastSeenAt := some now }

/-- Battery telemetry; a report that is not newer than the last one is ignored. -/
def recordTelemetry (r : RelayRegistry) (relayId : String) (batteryPercent timestamp now : ℚ) :
    RelayRegistry :=
  r.update relayId fun entry =>
    if entry.lastTelemetryAt.any fun last => min timestamp now ≤ last then entry
    else
      { entry with
        batteryPercent := some batteryPercent
        lastTelemetryAt := some (min timestamp now) }

theorem get_update (r : RelayRegistry) (relayId : String) (f : RelayEntry → RelayEntry)
    (k : String) :
    (r.update relayId f).get k = if k = relayId then (r.get k).map f else r.get k := by
  unfold update get
  cases hentry : r.relays.get? relayId with
  | none =>
    dsimp only
    split_ifs with hk
    · rw [hk, hentry]
      rfl
    · rfl
  | some entry =>
    have hmem : relayId ∈ r.relays.keys := by
      by_contra hno
      simp [BoundedFifoMap.get?_eq_none.mpr hno] at hentry
    have hpos : 0 < r.relays.maxSize := BoundedFifoMap.maxSize_pos_of_get? hentry
    dsimp only
    rw [BoundedFifoMap.get?_set_of_room hpos (.inl hmem)]
    split_ifs with hk
    · rw [hk, hentry]
      rfl
    · rfl

/-- Registering carries the status over, and may cost another relay its entry. -/
theorem get_upsert {r : RelayRegistry} {fields : RelayStaticFields} {now : ℚ} {k : String}
    {entry : RelayEntry} (h : (r.upsert fields now).get k = some entry) :
    (k = fields.relayId ∧ entry.online = ((r.get k).map RelayEntry.online).getD false) ∨
      r.get k = some entry := by
  refine (BoundedFifoMap.get?_of_get?_set h).imp_left ?_
  rintro ⟨rfl, rfl⟩
  exact ⟨rfl, rfl⟩

end RelayRegistry

structure RelayNode where
  transports : List LinkTransport
  /-- The transport on which each peer was last connected. -/
  peerTransport : OrderedMap String ℕ
  peerConnectionCounts : OrderedMap String ℤ
  relayRegistry : RelayRegistry

inductive RelayEvent where
  | transportAdded (kind : TransportKind)
  | link (index : ℕ) (event : LinkEvent) (now : ℚ)
  | registerRelay (fields : RelayStaticFields) (now : ℚ)
  | telemetry (relayId : String) (batteryPercent timestamp now : ℚ)

namespace RelayNode

/-- What the handlers that `addTransport` registers keep of a callback. -/
def handle (index : ℕ) (now : ℚ) (s : RelayNode) : LinkCallback → RelayNode
  | .connected peerId =>
    { s with
      peerTransport := s.peerTransport.set peerId index
      peerConnectionCounts :=
        s.peerConnectionCounts.set peerId ((s.peerConnectionCounts.get? peerId).getD 0 + 1)
      relayRegistry := s.relayRegistry.markOnline peerId now }
  | .disconnected peerId =>
    let remaining := (s.peerConnectionCounts.get? peerId).getD 1 - 1
    let forgotten := { s with peerTransport := s.peerTransport.delete peerId }
    if remaining ≤ 0 then
      { forgotten with
        peerConnectionCounts := s.peerConnectionCounts.delete peerId
        relayRegistry := s.relayRegistry.markOffline peerId now }
    else { forgotten with peerConnectionCounts := s.peerConnectionCounts.set peerId remaining }
  | .packet _ _ => s

def registerRelay (s : RelayNode) (fields : RelayStaticFields) (now : ℚ) : RelayNode :=
  let registry := s.relayRegistry.upsert fields now
  { s with
    relayRegistry :=
      if s.peerTransport.has fields.relayId then registry.markOnline fields.relayId now
      else registry }

def step (s : RelayNode) : RelayEvent → Option RelayNode
  | .transportAdded kind => some { s with transports := s.transports ++ [.create kind] }
  | .link index event now => do
    let transport ← s.transports[index]?
    let (transport, callbacks) ← transport.step event
    return callbacks.foldl (handle index now)
      { s with transports := s.transports.set index transport }
  | .registerRelay fields now => some (s.registerRelay fields now)
  | .telemetry relayId batteryPercent timestamp now =>
    some { s with
      relayRegistry := s.relayRegistry.recordTelemetry relayId batteryPercent timestamp now }

def create (maxRelays : WithTop ℤ) : RelayNode := ⟨[], .empty, .empty, ⟨.empty maxRelays⟩⟩

def system : System RelayNode RelayEvent where
  Init s := ∃ maxRelays, s = create maxRelays
  step := step

/-- Some transport has a live connection to the peer. -/
def connectedTo (s : RelayNode) (peerId : String) : Bool := s.transports.any fun t => t.live peerId

/-- No link takes the place of a live socket of the relay, and the relay is not
registered in between two of its transports' connections. -/
def steady (relayId : String) (s : RelayNode) : RelayEvent → Bool
  | .link index event _ => (s.transports[index]?).all fun t => t.introduces relayId event
  | .registerRelay fields _ =>
    fields.relayId ≠ relayId || (s.relayRegistry.get relayId).isSome ||
      s.peerTransport.has relayId || !s.connectedTo relayId
  | _ => true

/-- The node counts so many connections to the relay. -/
structure Tally (s : RelayNode) (relayId : String) (connections : ℕ) : Prop where
  count : (s.peerConnectionCounts.get? relayId).getD 0 = connections
  transport : s.peerTransport.has relayId = true → 0 < connections
  online : ∀ entry, s.relayRegistry.get relayId = some entry →
    (entry.online = true ↔ 0 < connections)

variable {s s' : RelayNode} {relayId : String} {n : ℕ} {index : ℕ} {now : ℚ}

theorem Tally.connected (h : s.Tally relayId n) :
    (s.handle index now (.connected relayId)).Tally relayId (n + 1) := by
  constructor
  · simp [handle, h.count]
  · intro _
    omega
  · intro entry hentry
    dsimp only [handle, RelayRegistry.markOnline] at hentry
    rw [RelayRegistry.get_update, if_pos rfl] at hentry
    obtain ⟨old, -, rfl⟩ := Option.map_eq_some_iff.mp hentry
    simp

theorem Tally.disconnected (h : s.Tally relayId (n + 1)) :
    (s.handle index now (.disconnected relayId)).Tally relayId n := by
  obtain ⟨count, hcount⟩ : ∃ count, s.peerConnectionCounts.get? relayId = some count := by
    cases hget : s.peerConnectionCounts.get? relayId with
    | some count => exact ⟨count, rfl⟩
    | none =>
      have hzero := h.count
      rw [hget] at hzero
      simp at hzero
      omega
  have hvalue : count = n + 1 := by simpa [hcount] using h.count
  unfold handle
  dsimp only
  rw [hcount, Option.getD_some, hvalue, add_sub_cancel_right]
  split_ifs with hlast
  · obtain rfl : n = 0 := by omega
    constructor
    · simp
    · intro hhas
      simp [OrderedMap.has] at hhas
    · intro entry hentry
      dsimp only [RelayRegistry.markOffline] at hentry
      rw [RelayRegistry.get_update, if_pos rfl] at hentry
      obtain ⟨old, -, rfl⟩ := Option.map_eq_some_iff.mp hentry
      simp
  · constructor
    · simp
    · intro hhas
      simp [OrderedMap.has] at hhas
    · intro entry hentry
      have honline := h.online entry hentry
      constructor
      · intro _
        omega
      · intro _
        exact honline.mpr (by omega)

/-- A callback about another peer, or with a packet, changes nothing for the relay. -/
theorem Tally.other (h : s.Tally relayId n) {callback : LinkCallback}
    (hconnected : callback ≠ .connected relayId) (hdisconnected : callback ≠ .disconnected relayId) :
    (s.handle index now callback).Tally relayId n := by
  cases callback with
  | packet packet fromPeerId => exact h
  | connected p =>
    have hne : relayId ≠ p := by
      rintro rfl
      exact hconnected rfl
    constructor
    · simp only [handle, OrderedMap.get?_set_of_ne _ _ hne]
      exact h.count
    · simp only [handle, OrderedMap.has, OrderedMap.get?_set_of_ne _ _ hne]
      exact h.transport
    · simp only [handle, RelayRegistry.markOnline, RelayRegistry.get_update, if_neg hne]
      exact h.online
  | disconnected p =>
    have hne : relayId ≠ p := by
      rintro rfl
      exact hdisconnected rfl
    unfold handle
    dsimp only
    split_ifs
    · constructor
      · simp only [OrderedMap.get?_delete_of_ne _ hne]
        exact h.count
      · simp only [OrderedMap.has, OrderedMap.get?_delete_of_ne _ hne]
        exact h.transport
      · simp only [RelayRegistry.markOffline, RelayRegistry.get_update, if_neg hne]
        exact h.online
    · constructor
      · simp only [OrderedMap.get?_set_of_ne _ _ hne]
        exact h.count
      · simp only [OrderedMap.has, OrderedMap.get?_delete_of_ne _ hne]
        exact h.transport
      · exact h.online

/-- The callbacks of one transport move the tally by what they say of it. -/
theorem Tally.callbacks {up up' : Bool} {callbacks : List LinkCallback}
    (h : s.Tally relayId (n + up.toNat)) (hflips : flips relayId up callbacks = some up') :
    (callbacks.foldl (handle index now) s).Tally relayId (n + up'.toNat) := by
  induction callbacks generalizing s up with
  | nil =>
    obtain rfl := Option.some.inj hflips
    exact h
  | cons callback rest ih =>
    rw [List.foldl_cons]
    cases callback with
    | packet packet fromPeerId => exact ih h hflips
    | connected p =>
      rw [flips] at hflips
      split_ifs at hflips with hp hup
      · subst hp
        obtain rfl : up = false := by simpa using hup
        exact ih h.connected hflips
      · exact ih (h.other (by simpa using hp) (by simp)) hflips
    | disconnected p =>
      rw [flips] at hflips
      split_ifs at hflips with hp hup
      · subst hp
        obtain rfl : up = true := hup
        have hdown : (s.handle index now (.disconnected p)).Tally p (n + Bool.toNat false) :=
          h.disconnected
        exact ih hdown hflips
      · exact ih (h.other (by simp) (by simpa using hp)) hflips

/-- The tally of the relay is the number of transports connected to it. -/
structure Present (relayId : String) (s : RelayNode) : Prop where
  sound : ∀ t ∈ s.transports, t.Sound relayId
  tally : s.Tally relayId (s.transports.countP fun t => t.live relayId)

theorem connectedTo_iff (s : RelayNode) (relayId : String) :
    s.connectedTo relayId = true ↔ 0 < s.transports.countP fun t => t.live relayId := by
  rw [connectedTo, List.any_eq_true, List.countP_pos_iff]

theorem Present.link (h : s.Present relayId) {event : LinkEvent}
    (hcond : s.steady relayId (.link index event now) = true)
    (hstep : s.step (.link index event now) = some s') : s'.Present relayId := by
  obtain ⟨t, ht, hrest⟩ := Option.bind_eq_some_iff.mp hstep
  obtain ⟨⟨t', callbacks⟩, ht', hs'⟩ := Option.bind_eq_some_iff.mp hrest
  obtain rfl := Option.some.inj hs'
  obtain ⟨hlt, hget⟩ := List.getElem?_eq_some_iff.mp ht
  have hmem : t ∈ s.transports := List.mem_of_getElem? ht
  have hintroduces : t.introduces relayId event = true := by simpa [steady, ht] using hcond
  obtain ⟨hsound, hflips⟩ := (h.sound t hmem).step hintroduces ht'
  -- the transports other than this one
  obtain ⟨n, hn⟩ : ∃ n, (s.transports.countP fun t => t.live relayId) =
      n + (t.live relayId).toNat := by
    cases hlive : t.live relayId with
    | false => exact ⟨_, rfl⟩
    | true =>
      have hpos : 0 < s.transports.countP fun t => t.live relayId :=
        List.countP_pos_iff.mpr ⟨t, hmem, hlive⟩
      exact ⟨(s.transports.countP fun t => t.live relayId) - 1, by simp; omega⟩
  have hafter : ((s.transports.set index t').countP fun t => t.live relayId) =
      n + (t'.live relayId).toNat := by
    rw [List.countP_set hlt, hget, hn]
    cases t.live relayId <;> cases t'.live relayId <;> simp
  have htally : Tally { s with transports := s.transports.set index t' } relayId
      (n + (t.live relayId).toNat) := by
    rw [← hn]
    exact ⟨h.tally.count, h.tally.transport, h.tally.online⟩
  have hframe : ∀ (l : List LinkCallback) (u : RelayNode),
      (l.foldl (handle index now) u).transports = u.transports := by
    intro l
    induction l with
    | nil => exact fun _ => rfl
    | cons callback rest ih =>
      intro u
      rw [List.foldl_cons, ih]
      cases callback with
      | connected p => rfl
      | disconnected p =>
        unfold handle
        dsimp only
        split_ifs <;> rfl
      | packet packet fromPeerId => rfl
  constructor
  · intro u hu
    rw [hframe] at hu
    rcases List.mem_or_eq_of_mem_set hu with hold | rfl
    · exact h.sound u hold
    · exact hsound
  · rw [hframe, hafter]
    exact htally.callbacks hflips

theorem Present.registerRelay (h : s.Present relayId) {fields : RelayStaticFields}
    (hcond : s.steady relayId (.registerRelay fields now) = true) :
    (s.registerRelay fields now).Present relayId := by
  refine ⟨h.sound, h.tally.count, h.tally.transport, ?_⟩
  intro entry hentry
  unfold RelayNode.registerRelay at hentry
  dsimp only at hentry
  change entry.online = true ↔ 0 < s.transports.countP fun t => t.live relayId
  -- before `markOnline`, the entry is an old one or carries the old status
  have hbefore : ∀ e, (s.relayRegistry.upsert fields now).get relayId = some e →
      s.peerTransport.has fields.relayId = false ∨ relayId ≠ fields.relayId →
      (e.online = true ↔ 0 < s.transports.countP fun t => t.live relayId) := by
    intro e he hquiet
    rcases RelayRegistry.get_upsert he with ⟨hid, honline⟩ | hold
    · cases hregistered : s.relayRegistry.get relayId with
      | some old =>
        rw [honline, hregistered]
        exact h.tally.online old hregistered
      | none =>
        have hno : s.peerTransport.has relayId = false := by
          rcases hquiet with hno | hother
          · rw [hid]
            exact hno
          · exact absurd hid hother
        have hdead : s.connectedTo relayId = false := by
          simpa [steady, hid.symm, hregistered, hno] using hcond
        rw [honline, hregistered, ← connectedTo_iff, hdead]
        simp
    · exact h.tally.online e hold
  split_ifs at hentry with hhas
  · rw [RelayRegistry.markOnline, RelayRegistry.get_update] at hentry
    split_ifs at hentry with hid
    · obtain ⟨old, -, rfl⟩ := Option.map_eq_some_iff.mp hentry
      have hpos := h.tally.transport (hid ▸ hhas)
      simp [hpos]
    · exact hbefore entry hentry (.inr hid)
  · exact hbefore entry hentry (.inl (by simpa using hhas))

theorem Present.step (h : s.Present relayId) {event : RelayEvent}
    (hcond : s.steady relayId event = true) (hstep : s.step event = some s') :
    s'.Present relayId := by
  cases event with
  | transportAdded kind =>
    obtain rfl := Option.some.inj hstep
    obtain ⟨hsound, hlive⟩ := LinkTransport.sound_create kind relayId
    constructor
    · intro t ht
      rcases List.mem_append.mp ht with hold | hnew
      · exact h.sound t hold
      · obtain rfl := List.mem_singleton.mp hnew
        exact hsound
    · have hcount : ((s.transports ++ [LinkTransport.create kind]).countP fun t => t.live relayId) =
          s.transports.countP fun t => t.live relayId := by
        simp [List.countP_append, hlive]
      rw [hcount]
      exact ⟨h.tally.count, h.tally.transport, h.tally.online⟩
  | link index event now => exact h.link hcond hstep
  | registerRelay fields now =>
    obtain rfl := Option.some.inj hstep
    exact h.registerRelay hcond
  | telemetry id batteryPercent timestamp now =>
    obtain rfl := Option.some.inj hstep
    refine ⟨h.sound, h.tally.count, h.tally.transport, ?_⟩
    intro entry hentry
    dsimp only [RelayRegistry.recordTelemetry] at hentry
    rw [RelayRegistry.get_update] at hentry
    split_ifs at hentry
    · obtain ⟨old, hold, rfl⟩ := Option.map_eq_some_iff.mp hentry
      have honline := h.tally.online old hold
      split_ifs <;> exact honline
    · exact h.tally.online entry hentry

/-- As long as no live socket of the relay is replaced, and the relay is not
registered while the node has lost sight of a live connection, its status tells
whether some transport is connected to it. -/
theorem online_iff_connectedTo
    (h : system.ReachableUnder (fun s event => s.steady relayId event = true) s)
    {entry : RelayEntry} (hentry : s.relayRegistry.get relayId = some entry) :
    entry.online = true ↔ s.connectedTo relayId = true := by
  have hpresent : s.Present relayId := by
    apply h.invariant (I := fun s => s.Present relayId)
    · rintro s ⟨maxRelays, rfl⟩
      constructor
      · intro t ht
        cases ht
      · constructor
        · rfl
        · intro hhas
          cases hhas
        · intro entry hentry
          cases hentry
    · intro s event s' hs hcond hstep
      exact hs.step hcond hstep
  rw [connectedTo_iff]
  exact hpresent.tally.online entry hentry

/-! ### Runs with one relay -/

/-- The first packet on a link to the peer. -/
def hello (peerId : String) : Packet where
  version := .num (.finite 1)
  id := "hello"
  type := .hello
  source := peerId
  destination := .undefined
  ttl := .finite 1
  timestamp := .num (.finite 0)
  priority := .num (.finite 2)
  payload := .obj []

def sampleRelay : RelayStaticFields where
  relayId := "relay"
  type := .fixed
  lat := 45
  lon := 9
  radio := none
  operator := none
  installedAt := none

/-- What the registry says of the sample relay, and whether it is connected. -/
def status (s : RelayNode) : Option Bool × Bool :=
  ((s.relayRegistry.get "relay").map RelayEntry.online, s.connectedTo "relay")

/-- Connected over TCP and over a simulated link, and then over one of them only. -/
def twoLinks : List RelayEvent :=
  [ .transportAdded .tcp, .transportAdded (.simulatedLink 3), .registerRelay sampleRelay 0,
    .link 0 (.opened "a") 1, .link 0 (.packet "a" (hello "relay")) 2,
    .link 1 (.opened "b") 3, .link 1 (.packet "b" (hello "relay")) 4, .link 0 (.closed "a") 5 ]

theorem online_iff_connectedTo_twoLinks :
    ∃ s entry, system.runUnder (steady "relay") (create 512) twoLinks = some s ∧
      s.relayRegistry.get "relay" = some entry ∧
      (entry.online = true ↔ s.connectedTo "relay" = true) := by
  have hrun : (system.runUnder (steady "relay") (create 512) twoLinks).map status =
      some (some true, true) := by
    decide
  obtain ⟨s, hs, hstatus⟩ := Option.map_eq_some_iff.mp hrun
  obtain ⟨entry, hentry, -⟩ := Option.map_eq_some_iff.mp (Prod.mk.inj hstatus).1
  exact ⟨s, entry, hs, hentry,
    online_iff_connectedTo (System.reachableUnder_of_runUnder ⟨_, rfl⟩ hs) hentry⟩

/-- The relay reconnects before its old socket is torn down; both sockets close. -/
def reconnect : List RelayEvent :=
  [ .transportAdded .tcp, .registerRelay sampleRelay 0,
    .link 0 (.opened "a") 1, .link 0 (.packet "a" (hello "relay")) 2,
    .link 0 (.opened "b") 3, .link 0 (.packet "b" (hello "relay")) 4,
    .link 0 (.closed "a") 5, .link 0 (.closed "b") 6 ]

theorem online_after_reconnect :
    ¬∀ (s : RelayNode), system.Reachable s → ∀ relayId entry,
      s.relayRegistry.get relayId = some entry →
        (entry.online = true ↔ s.connectedTo relayId = true) := by
  intro hclaim
  have hrun : (system.run (create 512) reconnect).map status = some (some true, false) := by
    decide
  obtain ⟨s, hs, hstatus⟩ := Option.map_eq_some_iff.mp hrun
  obtain ⟨hregistered, hconnected⟩ := Prod.mk.inj hstatus
  obtain ⟨entry, hentry, honline⟩ := Option.map_eq_some_iff.mp hregistered
  have hiff := hclaim s (System.reachable_of_run ⟨_, rfl⟩ hs) "relay" entry hentry
  rw [honline, hconnected] at hiff
  simp at hiff

end RelayNode

end Arald
