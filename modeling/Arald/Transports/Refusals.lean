import Arald.Transports.LoraLink

/-!
# Refused connections of a simulated link

`receiveFragment` of `simulated-link.ts` with what it does to the connections, over
any order of connections coming, their fragments and their closing. The first packet
of a connection names its peer; with `maxConnections` peers already there, or another
connection of the same peer, a connection is closed.
-/

namespace Arald

open Foundations

namespace SimulatedLinkTransport

def maxPendingConnections : ℤ := 32

def pendingConnectionCount (t : SimulatedLinkTransport) : ℤ :=
  t.connectionsById.size - t.connectionsByPeerId.size

/-- The packet can be the first one of the connection: its source is connected by
another one, or there is room for a peer. -/
def accepts (t : SimulatedLinkTransport) (id : String) (packet : Packet) : Bool :=
  match t.connectionsById.get? id with
  | none => true
  | some peerId =>
    knownPeer peerId ||
      match t.connectionsByPeerId.get? packet.source with
      | none => (t.connectionsByPeerId.size : ℤ) < t.maxConnections
      | some existing => existing ≠ id

variable {t : SimulatedLinkTransport} {id : String} {packet : Packet} {peerId : Option String}

theorem connectionsById_closeConnection (t : SimulatedLinkTransport) (id : String) :
    (t.closeConnection id).1.connectionsById = t.connectionsById.delete id := by
  unfold closeConnection
  cases hget : t.connectionsById.get? id with
  | none => exact (OrderedMap.delete_of_notMem (OrderedMap.get?_eq_none.mp hget)).symm
  | some peerId =>
    cases peerId with
    | none => rfl
    | some peerId =>
      dsimp only
      split_ifs <;> rfl

/-- Closing a connection ends that of its peer, if any. -/
theorem connectionsByPeerId_closeConnection (t : SimulatedLinkTransport) (id : String) :
    (t.closeConnection id).1.connectionsByPeerId = t.connectionsByPeerId ∨
      ∃ peerId, (t.closeConnection id).1.connectionsByPeerId = t.connectionsByPeerId.delete peerId := by
  unfold closeConnection
  split
  · exact .inl rfl
  · split
    · exact .inl rfl
    · split_ifs
      · exact .inl rfl
      · exact .inr ⟨_, rfl⟩
      · exact .inl rfl

theorem callbacks_closeConnection (t : SimulatedLinkTransport) (id : String) :
    ∀ callback ∈ (t.closeConnection id).2, ∃ peerId, callback = .disconnected peerId := by
  unfold closeConnection
  split
  · simp
  · split
    · simp
    · split_ifs <;> simp

@[simp] theorem maxConnections_closeConnection :
    (t.closeConnection id).1.maxConnections = t.maxConnections := by
  unfold closeConnection
  split
  · rfl
  · split
    · rfl
    · split_ifs <;> rfl

/-- A packet on a connection whose peer is known is that peer's; otherwise the
connection becomes that of the packet's source, and another one of it is closed. -/
theorem receive_cases (hget : t.connectionsById.get? id = some peerId) (haccepts : t.accepts id packet = true) :
    (∃ peer, peerId = some peer ∧ t.receive id packet = (t, [.packet packet (some peer)])) ∨
      ∃ ended t', t.receive id packet =
          (t', ended ++ [.connected packet.source, .packet packet (some packet.source)]) ∧
        (∀ callback ∈ ended, ∃ peer, callback = .disconnected peer) ∧
        ∀ k, t'.connectionsById.get? k =
          if k = id then some (some packet.source)
          else if t.connectionsByPeerId.get? packet.source = some k then none
          else t.connectionsById.get? k := by
  rw [accepts, hget] at haccepts
  rw [receive, hget]
  dsimp only at haccepts ⊢
  have hmem : t.connectionsById.has id = true := by simp [OrderedMap.has, hget]
  by_cases hknown : knownPeer peerId = true
  · left
    rw [if_pos hknown]
    cases peerId with
    | none => simp [knownPeer] at hknown
    | some peer => exact ⟨peer, rfl, rfl⟩
  · right
    rw [if_neg hknown, handleIdentified]
    simp only [Bool.not_eq_true] at hknown
    rw [hknown, Bool.false_or] at haccepts
    cases hexisting : t.connectionsByPeerId.get? packet.source with
    | none =>
      rw [hexisting] at haccepts
      have hroom : ¬t.maxConnections ≤ t.connectionsByPeerId.size := not_le.mpr (of_decide_eq_true haccepts)
      refine ⟨[], t.assign id packet.source, ?_, by simp, ?_⟩
      · simp [hroom]
      · intro k
        simp only [assign, hmem, if_true, OrderedMap.get?_set, reduceCtorEq, if_false]
    | some existing =>
      rw [hexisting] at haccepts
      have hne : existing ≠ id := of_decide_eq_true haccepts
      have hstill : (t.connectionsById.delete existing).has id = true := by
        rw [OrderedMap.has, OrderedMap.get?_delete_of_ne _ hne.symm, hget]
        rfl
      refine ⟨(t.closeConnection existing).2, (t.closeConnection existing).1.assign id packet.source, ?_,
        t.callbacks_closeConnection existing, ?_⟩
      · simp
      · intro k
        simp only [assign, connectionsById_closeConnection, hstill, if_true, OrderedMap.get?_set,
          OrderedMap.get?_delete, Option.some.injEq, eq_comm (a := existing)]

/-- Otherwise the connection is closed, and the packet handed on nevertheless. -/
theorem receive_of_not_accepts (h : t.accepts id packet = false) :
    (t.receive id packet).1.connectionsById.get? id = none ∧
      ∃ fromPeerId, LinkCallback.packet packet fromPeerId ∈ (t.receive id packet).2 := by
  unfold accepts at h
  rw [receive]
  cases hget : t.connectionsById.get? id with
  | none => simp [hget] at h
  | some peerId =>
    rw [hget] at h
    dsimp only at h ⊢
    obtain ⟨hknown, hrefused⟩ := Bool.or_eq_false_iff.mp h
    rw [hknown, if_neg Bool.false_ne_true, handleIdentified]
    refine ⟨?_, _, List.mem_append_right _ (List.mem_singleton_self _)⟩
    cases hexisting : t.connectionsByPeerId.get? packet.source with
    | none =>
      rw [hexisting] at hrefused
      have hfull : t.maxConnections ≤ t.connectionsByPeerId.size := not_lt.mp (of_decide_eq_false hrefused)
      rw [if_pos hfull, connectionsById_closeConnection, OrderedMap.get?_delete_self]
    | some existing =>
      rw [hexisting] at hrefused
      obtain rfl : existing = id := by simpa using hrefused
      have hgone : (t.connectionsById.delete existing).has existing = false := by
        rw [OrderedMap.has, OrderedMap.get?_delete_self]
        rfl
      simp [assign, connectionsById_closeConnection, hgone]

/-- However a packet is taken, there are never too many peers. -/
theorem size_receive_le {n : ℕ} (hmax : t.maxConnections = n) (hsize : t.connectionsByPeerId.size ≤ n) :
    (t.receive id packet).1.maxConnections = n ∧ (t.receive id packet).1.connectionsByPeerId.size ≤ n := by
  have hclose : ∀ id, (t.closeConnection id).1.connectionsByPeerId.size ≤ t.connectionsByPeerId.size := by
    intro id
    rcases t.connectionsByPeerId_closeConnection id with h | ⟨peer, h⟩
    · rw [h]
    · rw [h]
      exact OrderedMap.size_delete_le _ _
  rw [receive]
  cases hget : t.connectionsById.get? id with
  | none => exact ⟨hmax, hsize⟩
  | some peerId =>
    dsimp only
    by_cases hknown : knownPeer peerId = true
    · rw [if_pos hknown]
      exact ⟨hmax, hsize⟩
    · rw [if_neg hknown, handleIdentified]
      cases hexisting : t.connectionsByPeerId.get? packet.source with
      | none =>
        dsimp only
        split_ifs with hfull
        · exact ⟨maxConnections_closeConnection.trans hmax, (hclose id).trans hsize⟩
        · refine ⟨hmax, ?_⟩
          have hnew := OrderedMap.size_set_of_notMem id (OrderedMap.get?_eq_none.mp hexisting)
          rw [hmax] at hfull
          simp only [assign, hnew]
          omega
      | some existing =>
        dsimp only
        refine ⟨maxConnections_closeConnection.trans hmax, ?_⟩
        have hold := OrderedMap.mem_keys_of_get? hexisting
        simp only [assign]
        rcases t.connectionsByPeerId_closeConnection existing with h | ⟨peer, h⟩
        · rw [h, OrderedMap.size_set_of_mem _ hold]
          exact hsize
        · rw [h]
          by_cases hpeer : packet.source = peer
          · have hnot : packet.source ∉ (t.connectionsByPeerId.delete peer).keys := by
              rw [OrderedMap.mem_keys_delete]
              exact fun hmem => hmem.2 hpeer
            rw [OrderedMap.size_set_of_notMem _ hnot, ← hpeer, OrderedMap.size_delete_of_mem hold]
            exact hsize
          · have hmem := OrderedMap.mem_keys_delete.mpr ⟨hold, hpeer⟩
            rw [OrderedMap.size_set_of_mem _ hmem]
            exact (OrderedMap.size_delete_le _ _).trans hsize

end SimulatedLinkTransport

/-! ### Runs -/

/-- What becomes of the connections, in the order in which it happens. -/
inductive LinkRecord where
  | opened (id : String)
  | identified (id peerId : String)
  | closed (id : String)
  /-- A packet that arrived on the connection goes to the packet handlers. -/
  | handled (id : String) (packet : Packet) (fromPeerId : Option String)

namespace LinkRecord

/-- The peer for which the connection was last accepted. -/
def acceptedPeer (log : List LinkRecord) (id : String) : Option String :=
  log.foldl (fun peer record =>
    match record with
    | .identified k peerId => if k = id then some peerId else peer
    | _ => peer) none

def hasOpened (log : List LinkRecord) (id : String) : Bool :=
  log.any fun
    | .opened k => k = id
    | _ => false

/-- The records of a packet on a connection, from the transport before and after it
and from the callbacks. -/
def ofReceive (id : String) (before after : SimulatedLinkTransport) (callbacks : List LinkCallback) :
    List LinkRecord :=
  ((before.connectionsById.keys.filter fun k => !after.connectionsById.has k).map .closed) ++
    callbacks.filterMap fun
      | .connected peerId => some (.identified id peerId)
      | .disconnected _ => none
      | .packet packet fromPeerId => some (.handled id packet fromPeerId)

/-- Every packet that was handed on came on a connection that had been accepted, was
not closed by then, and belonged to the peer it was attributed to. -/
def HandsOnAccepted (log : List LinkRecord) : Prop :=
  ∀ before id packet fromPeerId after, log = before ++ .handled id packet fromPeerId :: after →
    ∃ peer, fromPeerId = some peer ∧ acceptedPeer before id = some peer ∧ .closed id ∉ before

variable {log : List LinkRecord} {id : String}

@[simp] theorem acceptedPeer_identified (log : List LinkRecord) (id k peerId : String) :
    acceptedPeer (log ++ [.identified k peerId]) id = if k = id then some peerId else acceptedPeer log id := by
  simp [acceptedPeer]

@[simp] theorem acceptedPeer_opened (log : List LinkRecord) (id k : String) :
    acceptedPeer (log ++ [.opened k]) id = acceptedPeer log id := by
  simp [acceptedPeer]

@[simp] theorem acceptedPeer_handled (log : List LinkRecord) (id k : String) (packet : Packet)
    (fromPeerId : Option String) :
    acceptedPeer (log ++ [.handled k packet fromPeerId]) id = acceptedPeer log id := by
  simp [acceptedPeer]

@[simp] theorem acceptedPeer_closed (log : List LinkRecord) (id : String) (gone : List String) :
    acceptedPeer (log ++ gone.map .closed) id = acceptedPeer log id := by
  induction gone using List.reverseRecOn with
  | nil => simp
  | append_singleton gone k ih =>
    rw [← ih, List.map_append, ← List.append_assoc, acceptedPeer, List.foldl_append]
    rfl

theorem HandsOnAccepted.concat (h : HandsOnAccepted log) {record : LinkRecord}
    (hrecord : ∀ id packet fromPeerId, record = .handled id packet fromPeerId →
      ∃ peer, fromPeerId = some peer ∧ acceptedPeer log id = some peer ∧ .closed id ∉ log) :
    HandsOnAccepted (log ++ [record]) := by
  intro before id packet fromPeerId after hsplit
  rcases List.eq_nil_or_concat after with rfl | ⟨init, last, rfl⟩
  · obtain ⟨rfl, hsame⟩ := List.append_inj' hsplit rfl
    exact hrecord id packet fromPeerId (List.singleton_inj.mp hsame)
  · have hsplit' : log ++ [record] = before ++ .handled id packet fromPeerId :: init ++ [last] := by
      rw [hsplit]
      simp
    obtain ⟨hlog, -⟩ := List.append_inj' hsplit' rfl
    exact h before id packet fromPeerId init hlog

theorem HandsOnAccepted.append_closed (h : HandsOnAccepted log) (gone : List String) :
    HandsOnAccepted (log ++ gone.map .closed) := by
  induction gone using List.reverseRecOn with
  | nil => simpa using h
  | append_singleton gone k ih =>
    rw [List.map_append, ← List.append_assoc]
    exact ih.concat (by simp)

end LinkRecord

/-- A simulated link transport with the fragments that its connections collect. -/
structure SimulatedLink where
  transport : SimulatedLinkTransport
  reassembler : String → FragmentReassembler
  log : List LinkRecord

inductive SimulatedLinkEvent where
  /-- `acceptConnection`, or the own end of `connect`, under a random id. -/
  | opened (id : String)
  | fragment (fragment : Fragment)
  /-- The remote end closes the connection, or it is closed here by a timeout, by a
  failed greeting or by `stop`. -/
  | closed (id : String)

namespace SimulatedLink

def create (maxConnections : ℕ) : SimulatedLink :=
  ⟨⟨maxConnections, .empty, .empty⟩, fun _ => .create, []⟩

/-- The packet that the fragment completes on its connection. -/
def completes (c : PacketText) (s : SimulatedLink) (fragment : Fragment) : Option Packet :=
  ((s.reassembler fragment.connectionId).addFragment fragment).2.bind c.parse

def receiveFragment (c : PacketText) (s : SimulatedLink) (fragment : Fragment) : SimulatedLink :=
  let id := fragment.connectionId
  if s.transport.connectionsById.has id then
    let added := ((s.reassembler id).addFragment fragment).1
    let kept := { s with reassembler := Function.update s.reassembler id added }
    match s.completes c fragment with
    | none => kept
    | some packet =>
      let next := s.transport.receive id packet
      { kept with
        transport := next.1, log := s.log ++ LinkRecord.ofReceive id s.transport next.1 next.2 }
  else s

def close (s : SimulatedLink) (id : String) : SimulatedLink :=
  if s.transport.connectionsById.has id then
    { s with transport := (s.transport.closeConnection id).1, log := s.log ++ [.closed id] }
  else s

/-- A connection under an id that was never used, unless too many are pending. -/
def accept (s : SimulatedLink) (id : String) : Option SimulatedLink :=
  if LinkRecord.hasOpened s.log id then none
  else if SimulatedLinkTransport.maxPendingConnections ≤ s.transport.pendingConnectionCount then some s
  else (s.transport.acceptConnection id).map fun t => { s with transport := t, log := s.log ++ [.opened id] }

def step (c : PacketText) (s : SimulatedLink) : SimulatedLinkEvent → Option SimulatedLink
  | .opened id => s.accept id
  | .fragment fragment => some (s.receiveFragment c fragment)
  | .closed id => some (s.close id)

def system (c : PacketText) (maxConnections : ℕ) : System SimulatedLink SimulatedLinkEvent where
  Init s := s = create maxConnections
  step := step c

/-- A packet that a fragment completes is accepted on its connection. -/
def admits (c : PacketText) (s : SimulatedLink) : SimulatedLinkEvent → Bool
  | .fragment fragment =>
    (s.completes c fragment).all fun packet => s.transport.accepts fragment.connectionId packet
  | _ => true

variable {c : PacketText} {maxConnections : ℕ} {s s' : SimulatedLink} {id : String}

theorem size_le (h : (system c maxConnections).Reachable s) :
    s.transport.maxConnections = maxConnections ∧
      s.transport.connectionsByPeerId.size ≤ maxConnections := by
  apply h.invariant (I := fun s => s.transport.maxConnections = (maxConnections : ℤ) ∧
    s.transport.connectionsByPeerId.size ≤ maxConnections)
  · rintro s rfl
    exact ⟨rfl, Nat.zero_le _⟩
  · rintro s e s' ⟨hmax, hsize⟩ - hstep
    cases e with
    | opened id =>
      change s.accept id = some s' at hstep
      unfold accept at hstep
      split_ifs at hstep
      · obtain rfl := Option.some.inj hstep
        exact ⟨hmax, hsize⟩
      · obtain ⟨t, ht, rfl⟩ := Option.map_eq_some_iff.mp hstep
        unfold SimulatedLinkTransport.acceptConnection at ht
        split_ifs at ht
        obtain rfl := Option.some.inj ht
        exact ⟨hmax, hsize⟩
    | fragment fragment =>
      obtain rfl := Option.some.inj hstep
      unfold receiveFragment
      dsimp only
      split_ifs
      · split
        · exact ⟨hmax, hsize⟩
        · exact SimulatedLinkTransport.size_receive_le hmax hsize
      · exact ⟨hmax, hsize⟩
    | closed id =>
      obtain rfl := Option.some.inj hstep
      unfold close
      split_ifs
      · refine ⟨SimulatedLinkTransport.maxConnections_closeConnection.trans hmax, ?_⟩
        rcases s.transport.connectionsByPeerId_closeConnection id with h | ⟨peer, h⟩
        · exact h ▸ hsize
        · dsimp only
          rw [h]
          exact (OrderedMap.size_delete_le _ _).trans hsize
      · exact ⟨hmax, hsize⟩

/-- The log tells the same as the transport. -/
structure Accounted (s : SimulatedLink) : Prop where
  current : ∀ id peerId, s.transport.connectionsById.get? id = some peerId →
    LinkRecord.hasOpened s.log id = true ∧ .closed id ∉ s.log ∧ LinkRecord.acceptedPeer s.log id = peerId
  unused : ∀ id, LinkRecord.hasOpened s.log id = false →
    .closed id ∉ s.log ∧ LinkRecord.acceptedPeer s.log id = none
  handed : LinkRecord.HandsOnAccepted s.log

theorem Accounted.accept (h : s.Accounted) (hstep : s.accept id = some s') : s'.Accounted := by
  unfold SimulatedLink.accept at hstep
  split_ifs at hstep with hopened
  · obtain rfl := Option.some.inj hstep
    exact h
  · obtain ⟨t, ht, rfl⟩ := Option.map_eq_some_iff.mp hstep
    unfold SimulatedLinkTransport.acceptConnection at ht
    split_ifs at ht
    obtain rfl := Option.some.inj ht
    have hnew : ∀ k, LinkRecord.hasOpened (s.log ++ [.opened id]) k =
        (LinkRecord.hasOpened s.log k || decide (id = k)) := by
      simp [LinkRecord.hasOpened]
    refine ⟨?_, ?_, h.handed.concat (by simp)⟩
    · intro k peerId hget
      dsimp only at hget ⊢
      rw [hnew, LinkRecord.acceptedPeer_opened]
      rw [OrderedMap.get?_set] at hget
      split_ifs at hget with hk
      · obtain rfl := hk
        obtain rfl := Option.some.inj hget
        obtain ⟨hclosed, hpeer⟩ := h.unused k (Bool.eq_false_iff.mpr hopened)
        exact ⟨by simp, by simpa using hclosed, hpeer⟩
      · obtain ⟨hopen, hclosed, hpeer⟩ := h.current k peerId hget
        exact ⟨by simp [hopen], by simpa using hclosed, hpeer⟩
    · intro k hk
      rw [hnew] at hk
      obtain ⟨hk, -⟩ := Bool.or_eq_false_iff.mp hk
      obtain ⟨hclosed, hpeer⟩ := h.unused k hk
      exact ⟨by simpa using hclosed, (LinkRecord.acceptedPeer_opened ..).trans hpeer⟩

theorem Accounted.close (h : s.Accounted) (id : String) : (s.close id).Accounted := by
  unfold SimulatedLink.close
  split_ifs with hhas
  · have hlog : s.log ++ [.closed id] = s.log ++ [id].map .closed := rfl
    have hopened : LinkRecord.hasOpened (s.log ++ [.closed id]) = LinkRecord.hasOpened s.log := by
      funext k
      simp [LinkRecord.hasOpened]
    refine ⟨?_, ?_, h.handed.append_closed [id]⟩
    · intro k peerId hget
      dsimp only at hget ⊢
      rw [SimulatedLinkTransport.connectionsById_closeConnection, OrderedMap.get?_delete] at hget
      split_ifs at hget with hk
      obtain ⟨hopen, hclosed, hpeer⟩ := h.current k peerId hget
      rw [hopened, hlog, LinkRecord.acceptedPeer_closed]
      exact ⟨hopen, by simpa [hk] using hclosed, hpeer⟩
    · intro k hk
      rw [hopened] at hk
      obtain ⟨hclosed, hpeer⟩ := h.unused k hk
      have hne : k ≠ id := by
        rintro rfl
        obtain ⟨peerId, hget⟩ := Option.isSome_iff_exists.mp hhas
        rw [(h.current k peerId hget).1] at hk
        cases hk
      dsimp only
      rw [hlog, LinkRecord.acceptedPeer_closed]
      exact ⟨by simpa [hne] using hclosed, hpeer⟩
  · exact h

/-- The records of a packet that is accepted on its connection. -/
theorem ofReceive_cases {t : SimulatedLinkTransport} {packet : Packet} {peerId : Option String}
    (hget : t.connectionsById.get? id = some peerId) (haccepts : t.accepts id packet = true) :
    (∃ peer, peerId = some peer ∧ (t.receive id packet).1 = t ∧
      LinkRecord.ofReceive id t (t.receive id packet).1 (t.receive id packet).2 =
        [.handled id packet (some peer)]) ∨
      ∃ gone : List String, (∀ k ∈ gone, t.connectionsById.has k = true ∧
          (t.receive id packet).1.connectionsById.has k = false) ∧
        LinkRecord.ofReceive id t (t.receive id packet).1 (t.receive id packet).2 =
          gone.map .closed ++ [.identified id packet.source, .handled id packet (some packet.source)] ∧
        (t.receive id packet).1.connectionsById.get? id = some (some packet.source) ∧
        ∀ k v, k ≠ id → (t.receive id packet).1.connectionsById.get? k = some v →
          t.connectionsById.get? k = some v := by
  rcases SimulatedLinkTransport.receive_cases hget haccepts with
    ⟨peer, hpeer, hreceive⟩ | ⟨ended, t', hreceive, hended, hget'⟩
  · left
    have hnone : (t.connectionsById.keys.filter fun k => !t.connectionsById.has k) = [] := by
      refine List.filter_eq_nil_iff.mpr ?_
      intro k hk
      simp [OrderedMap.has_iff.mpr hk]
    rw [hreceive, LinkRecord.ofReceive, hnone]
    exact ⟨peer, hpeer, rfl, rfl⟩
  · right
    refine ⟨t.connectionsById.keys.filter fun k => !t'.connectionsById.has k, ?_, ?_, ?_, ?_⟩
    · rw [hreceive]
      intro k hk
      obtain ⟨hk, hgone⟩ := List.mem_filter.mp hk
      exact ⟨OrderedMap.has_iff.mpr hk, by simpa using hgone⟩
    · have hquiet : (ended.filterMap fun
          | .connected peerId => some (LinkRecord.identified id peerId)
          | .disconnected _ => none
          | .packet packet fromPeerId => some (.handled id packet fromPeerId)) = [] := by
        refine List.filterMap_eq_nil_iff.mpr ?_
        intro callback hcallback
        obtain ⟨peer, rfl⟩ := hended callback hcallback
        rfl
      rw [hreceive, LinkRecord.ofReceive, List.filterMap_append, hquiet]
      rfl
    · rw [hreceive, hget', if_pos rfl]
    · intro k v hk hv
      rw [hreceive, hget', if_neg hk] at hv
      split_ifs at hv
      exact hv

theorem Accounted.receiveFragment (h : s.Accounted) {fragment : Fragment}
    (hadmits : s.admits c (.fragment fragment) = true) : (s.receiveFragment c fragment).Accounted := by
  unfold SimulatedLink.receiveFragment
  dsimp only
  split_ifs with hhas
  · cases hpacket : s.completes c fragment with
    | none => exact ⟨h.current, h.unused, h.handed⟩
    | some packet =>
      have haccepts : s.transport.accepts fragment.connectionId packet = true := by
        simpa [admits, hpacket] using hadmits
      obtain ⟨peerId, hget⟩ := Option.isSome_iff_exists.mp hhas
      obtain ⟨hopen, hclosed, hpeer⟩ := h.current _ _ hget
      dsimp only
      generalize fragment.connectionId = id at hget haccepts hopen hclosed hpeer
      rcases ofReceive_cases hget haccepts with
        ⟨peer, rfl, hsame, hrecords⟩ | ⟨gone, hgone, hrecords, hown, hothers⟩
      · -- the connection is the peer's already
        rw [hrecords, hsame]
        have hopened : LinkRecord.hasOpened (s.log ++ [.handled id packet (some peer)]) =
            LinkRecord.hasOpened s.log := by
          funext k
          simp [LinkRecord.hasOpened]
        refine ⟨?_, ?_, h.handed.concat ?_⟩
        · intro k v hk
          rw [hopened, LinkRecord.acceptedPeer_handled]
          simpa using h.current k v hk
        · intro k hk
          rw [hopened] at hk
          rw [LinkRecord.acceptedPeer_handled]
          simpa using h.unused k hk
        · intro k p fromPeerId hsame
          obtain ⟨rfl, -, rfl⟩ := LinkRecord.handled.inj hsame
          exact ⟨peer, rfl, hpeer, hclosed⟩
      · -- the connection becomes that of the source, another one may be closed
        rw [hrecords]
        have hlog : s.log ++ (gone.map LinkRecord.closed ++
              [.identified id packet.source, .handled id packet (some packet.source)]) =
            s.log ++ gone.map .closed ++ [.identified id packet.source] ++
              [.handled id packet (some packet.source)] := by simp
        have hopened : LinkRecord.hasOpened (s.log ++ (gone.map LinkRecord.closed ++
              [.identified id packet.source, .handled id packet (some packet.source)])) =
            LinkRecord.hasOpened s.log := by
          funext k
          simp [LinkRecord.hasOpened, Function.comp_def]
        have hpeerOf : ∀ k, LinkRecord.acceptedPeer (s.log ++ (gone.map LinkRecord.closed ++
              [.identified id packet.source, .handled id packet (some packet.source)])) k =
            if id = k then some packet.source else LinkRecord.acceptedPeer s.log k := by
          intro k
          rw [hlog, LinkRecord.acceptedPeer_handled, LinkRecord.acceptedPeer_identified,
            LinkRecord.acceptedPeer_closed]
        have hstay : ∀ k v, (s.transport.receive id packet).1.connectionsById.get? k = some v → k ∉ gone := by
          intro k v hk hmem
          have habsent := (hgone k hmem).2
          rw [OrderedMap.has, hk] at habsent
          cases habsent
        refine ⟨?_, ?_, ?_⟩
        · intro k v hk
          dsimp only at hk ⊢
          have hkeep := hstay k v hk
          rw [hopened, hpeerOf]
          rcases eq_or_ne k id with rfl | hne
          · obtain rfl := Option.some.inj (hown.symm.trans hk)
            exact ⟨hopen, by simpa [hkeep] using hclosed, if_pos rfl⟩
          · obtain ⟨hopen', hclosed', hpeer'⟩ := h.current k v (hothers k v hne hk)
            exact ⟨hopen', by simpa [hkeep] using hclosed', by rw [if_neg hne.symm, hpeer']⟩
        · intro k hk
          dsimp only at hk ⊢
          rw [hopened] at hk
          obtain ⟨hclosed', hpeer'⟩ := h.unused k hk
          have hunknown : ∀ v, s.transport.connectionsById.get? k ≠ some v := by
            intro v hv
            rw [(h.current k v hv).1] at hk
            cases hk
          have hne : id ≠ k := by
            rintro rfl
            exact hunknown _ hget
          have hkeep : k ∉ gone := by
            intro hmem
            obtain ⟨v, hv⟩ := Option.isSome_iff_exists.mp (hgone k hmem).1
            exact hunknown v hv
          rw [hpeerOf, if_neg hne]
          exact ⟨by simpa [hkeep] using hclosed', hpeer'⟩
        · dsimp only
          rw [hlog]
          refine ((h.handed.append_closed gone).concat (by simp)).concat ?_
          intro k p fromPeerId hsame
          obtain ⟨rfl, -, rfl⟩ := LinkRecord.handled.inj hsame
          refine ⟨packet.source, rfl, ?_, ?_⟩
          · rw [LinkRecord.acceptedPeer_identified, if_pos rfl]
          · simpa [hstay id _ hown] using hclosed
  · exact h

/-- There are never too many peers; while every first packet is accepted, the packet
handlers get what came on accepted connections, as from the peer of each, and nothing
from a connection that was refused, replaced or closed. -/
theorem hands_on_accepted {t : SimulatedLink} (hs : (system c maxConnections).Reachable s)
    (ht : (system c maxConnections).ReachableUnder (fun s e => admits c s e = true) t) :
    s.transport.connectionsByPeerId.size ≤ maxConnections ∧ LinkRecord.HandsOnAccepted t.log := by
  refine ⟨(size_le hs).2, ?_⟩
  have haccounted : t.Accounted := by
    apply ht.invariant (I := Accounted)
    · rintro s rfl
      refine ⟨by simp [create], by simp [create, LinkRecord.acceptedPeer], ?_⟩
      intro before id packet fromPeerId after hsplit
      simp [create] at hsplit
    · intro s e s' h hadmits hstep
      cases e with
      | opened id => exact h.accept hstep
      | fragment fragment =>
        obtain rfl := Option.some.inj hstep
        exact h.receiveFragment hadmits
      | closed id =>
        obtain rfl := Option.some.inj hstep
        exact h.close id
  exact haccounted.handed

open RadioLink

/-- A packet in one fragment. -/
def wholePacket (connectionId id source : String) : SimulatedLinkEvent :=
  .fragment ⟨connectionId, "message", 0, 1, encodePacket sampleText (samplePacket id source)⟩

/-- The last packet that was handed on, and its connection. -/
def lastHanded (s : SimulatedLink) : Option (String × Option String) :=
  match s.log.getLast? with
  | some (.handled id _ fromPeerId) => some (id, fromPeerId)
  | _ => none

/-- A peer comes a second time and replaces its connection. -/
theorem hands_on_accepted_again :
    ∃ s, (system sampleText 1).ReachableUnder (fun s e => admits sampleText s e = true) s ∧
      s.lastHanded = some ("second", some "peer") ∧
        s.transport.connectionsByPeerId.size ≤ 1 ∧ LinkRecord.HandsOnAccepted s.log := by
  have hrun : ((system sampleText 1).runUnder (fun s e => admits sampleText s e) (create 1)
      [.opened "first", wholePacket "first" "p1" "peer", .opened "second",
        wholePacket "second" "p2" "peer", wholePacket "first" "p1" "peer"]).map lastHanded =
          some (some ("second", some "peer")) := by
    decide
  obtain ⟨s, hs, hlast⟩ := Option.map_eq_some_iff.mp hrun
  have hreach := System.reachableUnder_of_runUnder (S := system sampleText 1) rfl hs
  exact ⟨s, hreach, hlast, hands_on_accepted hreach.reachable hreach⟩

/-- The packet with which a second peer is refused. -/
theorem refused_handed : ∃ s, (system sampleText 1).Reachable s ∧ ¬LinkRecord.HandsOnAccepted s.log := by
  have hrun : ((system sampleText 1).run (create 1)
      [.opened "first", wholePacket "first" "p1" "peer", .opened "second",
        wholePacket "second" "p3" "third"]).map lastHanded = some (some ("second", none)) := by
    decide
  obtain ⟨s, hs, hlast⟩ := Option.map_eq_some_iff.mp hrun
  refine ⟨s, System.reachable_of_run rfl hs, ?_⟩
  intro haccepted
  unfold lastHanded at hlast
  split at hlast
  · next id packet fromPeerId hget =>
    obtain ⟨rfl, rfl⟩ := Prod.mk.inj (Option.some.inj hlast)
    obtain ⟨before, hsplit⟩ := List.getLast?_eq_some_iff.mp hget
    obtain ⟨peer, hpeer, -⟩ := haccepted before _ packet none [] hsplit
    cases hpeer
  · cases hlast

end SimulatedLink
end Arald
