import Arald.Ingest.RelayReplay

/-!
# An operator's commands

`sendRelayCommand` stamps each command with the time, or with one more than the last
stamp when the clock has not moved on. The relay takes commands with increasing
stamps. So every command of a sender that the relay trusts with commands is accepted
when it first arrives, and at no other time, for as long as the relay remembers all
senders it has heard of.

A reading of the clock is an integer of at most `8.64e15` in magnitude, as the
language has it. The limit on the rate of commands keeps the stamps close enough to
the clock to be exact.
-/

namespace Arald

open Foundations

/-- What a node keeps of the relay commands it sends. -/
structure CommandSender where
  relayCommandWindow : BudgetWindow := {}
  lastSentRelayCommandTimestamp : ℚ := 0

namespace CommandSender

def maxRelayCommandsPerWindow : ℕ := 3

def relayCommandRateLimitWindowMs : ℤ := 5 * 60 * 1000

/-- The largest reading of `Date.now()`. -/
def maxTimeValue : ℤ := 8640000000000000

/-- The stamp of the command, or why it is not sent. -/
def sendRelayCommand (c : CommandSender) (targetNodeId : String) (keyKnown : Bool) (now : ℤ) :
    CommandSender × Except String ℚ :=
  if !keyKnown then
    (c, .error s!"cannot send private message: encryption key for {targetNodeId} is not yet known")
  else
    match c.relayCommandWindow.tryConsume maxRelayCommandsPerWindow relayCommandRateLimitWindowMs now with
    | (window, false) =>
      ({ c with relayCommandWindow := window },
        .error "sendRelayCommand: too many relay commands, try again later")
    | (window, true) =>
      let timestamp := max (now : ℚ) (Box.roundedSum c.lastSentRelayCommandTimestamp 1)
      (⟨window, timestamp⟩, .ok timestamp)

/-- The last stamp is an integer, and not further ahead of the clock than the
commands of the windows so far can have brought it. -/
structure Paced (c : CommandSender) : Prop where
  start : 0 ≤ c.relayCommandWindow.windowStart ∧ c.relayCommandWindow.windowStart ≤ maxTimeValue
  count : c.relayCommandWindow.count ≤ maxRelayCommandsPerWindow
  stamp : ∃ n : ℤ, c.lastSentRelayCommandTimestamp = n ∧ 0 ≤ n ∧
    (n - maxTimeValue) * 100000 ≤
      c.relayCommandWindow.windowStart + c.relayCommandWindow.count * 100000

variable {c c' : CommandSender} {targetNodeId : String} {keyKnown : Bool} {now : ℤ} {timestamp : ℚ}

theorem Paced.initial : Paced {} where
  start := by decide
  count := by decide
  stamp := ⟨0, by norm_num, le_rfl, by decide⟩

theorem roundedSum_one {n : ℤ} (hnonneg : 0 ≤ n) (hlt : n + 1 < 2 ^ 53) :
    Box.roundedSum (n : ℚ) 1 = ((n + 1 : ℤ) : ℚ) := by
  have hround : JsNumber.round ((n : ℚ) + 1) = .finite ((n + 1 : ℤ) : ℚ) := by
    rw [← JsNumber.round_intCast (abs_lt.mpr ⟨by omega, hlt⟩)]
    push_cast
    rfl
  rw [Box.roundedSum, hround]

/-- A window that is over is followed by one that starts at least its length later. -/
theorem Paced.roll (h : Paced c) (hnow : now ≤ maxTimeValue) :
    let w := c.relayCommandWindow.roll relayCommandRateLimitWindowMs now
    (0 ≤ w.windowStart ∧ w.windowStart ≤ maxTimeValue) ∧ w.count ≤ maxRelayCommandsPerWindow ∧
      c.relayCommandWindow.windowStart + c.relayCommandWindow.count * 100000 ≤
        w.windowStart + w.count * 100000 := by
  obtain ⟨hstart, hend⟩ := h.start
  have hcount : c.relayCommandWindow.count ≤ 3 := h.count
  unfold BudgetWindow.roll relayCommandRateLimitWindowMs
  split_ifs with hover
  · refine ⟨⟨by dsimp only; omega, hnow⟩, Nat.zero_le _, ?_⟩
    dsimp only
    push_cast
    omega
  · exact ⟨⟨hstart, hend⟩, h.count, le_rfl⟩

/-- What a call does to the last stamp: it stays while nothing is sent, and becomes
the newer stamp of the command that is. -/
theorem Paced.send_cases (h : Paced c) (hnow : now ≤ maxTimeValue) {r : Except String ℚ}
    (hsend : c.sendRelayCommand targetNodeId keyKnown now = (c', r)) :
    Paced c' ∧
      ((∃ message, r = .error message ∧
          c'.lastSentRelayCommandTimestamp = c.lastSentRelayCommandTimestamp) ∨
        ∃ timestamp, r = .ok timestamp ∧ c'.lastSentRelayCommandTimestamp = timestamp ∧
          c.lastSentRelayCommandTimestamp < timestamp) := by
  obtain ⟨hstart, hcount, hpace⟩ := h.roll hnow
  obtain ⟨n, hn, hnonneg, hstamp⟩ := h.stamp
  unfold sendRelayCommand at hsend
  cases keyKnown with
  | false =>
    cases hsend
    exact ⟨h, .inl ⟨_, rfl, rfl⟩⟩
  | true =>
    rw [if_neg (by decide)] at hsend
    cases hadmits : c.relayCommandWindow.admits maxRelayCommandsPerWindow relayCommandRateLimitWindowMs now with
    | false =>
      rw [BudgetWindow.tryConsume_of_not_admits hadmits] at hsend
      cases hsend
      exact ⟨⟨hstart, hcount, n, hn, hnonneg, hstamp.trans hpace⟩, .inl ⟨_, rfl, rfl⟩⟩
    | true =>
      rw [BudgetWindow.tryConsume_of_admits hadmits] at hsend
      have hslot : (c.relayCommandWindow.roll relayCommandRateLimitWindowMs now).count < 3 :=
        of_decide_eq_true hadmits
      have hexact : n + 1 < 2 ^ 53 := by
        have hend : (c.relayCommandWindow.roll relayCommandRateLimitWindowMs now).windowStart ≤
            8640000000000000 := hstart.2
        simp only [maxTimeValue] at hstamp
        omega
      have hstep : max (now : ℚ) (Box.roundedSum c.lastSentRelayCommandTimestamp 1) =
          ((max now (n + 1) : ℤ) : ℚ) := by
        rw [hn, roundedSum_one hnonneg hexact]
        push_cast
        rfl
      have hnewer : n < max now (n + 1) := lt_max_of_lt_right (lt_add_one n)
      dsimp only at hsend
      rw [hstep] at hsend
      cases hsend
      refine ⟨⟨hstart, hslot, _, rfl, hnonneg.trans hnewer.le, ?_⟩, .inr ⟨_, rfl, rfl, ?_⟩⟩
      · simp only [maxTimeValue] at hstamp hnow hstart ⊢
        push_cast
        rcases max_cases now (n + 1) with ⟨hmax, -⟩ | ⟨hmax, -⟩ <;> rw [hmax] <;> omega
      · rw [hn]
        exact_mod_cast hnewer

end CommandSender

/-! ### Runs -/

/-- The sender of the commands, the relay, and the commands between them. -/
structure CommandRun where
  relay : Box
  sender : CommandSender
  /-- The commands on their way to the relay, in the order of sending. -/
  inTransit : List ℚ
  /-- The commands that have arrived, in the order of their first arrival. -/
  arrived : List ℚ
  /-- The other senders the relay has heard of. -/
  others : List String

inductive CommandEvent where
  | sent (targetNodeId : String) (keyKnown : Bool) (now : ℤ)
  /-- The next command arrives. -/
  | delivered (packetId : String)
  /-- The next command never arrives. -/
  | lost
  /-- A command that has arrived arrives again. -/
  | replayed (i : ℕ) (packetId : String)
  /-- A private message of another sender. -/
  | other (senderId packetId : String) (payload : JsValue)
  /-- The operator of the relay assigns a trust level. -/
  | setTrust (nodeId : String) (level : TrustLevel)
  | peerSeen (peerId : String)

namespace CommandRun

/-- The stamp of a command to the relay that was sent. -/
def transmitted (relayId targetNodeId : String) : Except String ℚ → List ℚ
  | .ok timestamp => if targetNodeId = relayId then [timestamp] else []
  | .error _ => []

def receive (s : CommandRun) (senderId packetId : String) (payload : JsValue) : CommandRun :=
  { s with relay := s.relay.handlePrivateMessage senderId packetId payload }

def step (operator : String) (s : CommandRun) : CommandEvent → Option CommandRun
  | .sent targetNodeId keyKnown now =>
    if |now| ≤ CommandSender.maxTimeValue then
      let r := s.sender.sendRelayCommand targetNodeId keyKnown now
      some { s with
        sender := r.1
        inTransit := s.inTransit ++ transmitted s.relay.nodeId targetNodeId r.2 }
    else none
  | .delivered packetId =>
    match s.inTransit with
    | [] => none
    | timestamp :: rest =>
      some { s.receive operator packetId (Box.rebootCommand timestamp) with
        inTransit := rest
        arrived := s.arrived ++ [timestamp] }
  | .lost => if s.inTransit = [] then none else some { s with inTransit := s.inTransit.tail }
  | .replayed i packetId =>
    match s.arrived[i]? with
    | none => none
    | some timestamp => some (s.receive operator packetId (Box.rebootCommand timestamp))
  | .other senderId packetId payload =>
    if senderId = operator then none
    else some { s.receive senderId packetId payload with others := s.others.insert senderId }
  | .setTrust nodeId level => some { s with relay := { s.relay with trust := s.relay.trust.set nodeId level } }
  | .peerSeen peerId => some { s with relay := { s.relay with trust := s.relay.trust.markSeen peerId } }

def system (operator : String) : System CommandRun CommandEvent where
  Init s := ∃ nodeId o, s = ⟨Box.create nodeId o, {}, [], [], []⟩
  step := step operator

/-- The relay hears of fewer than 256 other senders. -/
def fewSenders (s : CommandRun) : CommandEvent → Bool
  | .other senderId _ _ => (s.others.insert senderId).length < 256
  | _ => true

/-- The relay trusts the sender of a command that arrives with commands. -/
def trusted (operator : String) (s : CommandRun) : CommandEvent → Bool
  | .delivered _ => meetsTrustLevel (s.relay.trust.get operator) s.relay.minTrustForRelayCommand
  | _ => true

/-! ### The relay's guard -/

/-- A private message leaves the guard as it is, or is a command that it accepts. -/
theorem handlePrivateMessage_cases (b : Box) (senderId packetId : String) (payload : JsValue) :
    ∃ appends, b.handlePrivateMessage senderId packetId payload = { b with nodeAppends := appends } ∨
      ∃ timestamp, b.handlePrivateMessage senderId packetId payload =
        Box.acceptRelayCommand { b with nodeAppends := appends } senderId timestamp := by
  obtain ⟨appends, happend⟩ := Box.considerNodeAppend_frame (b := b) senderId
    (Box.extractNodeAppendPayload payload packetId senderId)
  refine ⟨appends, ?_⟩
  rw [Box.handlePrivateMessage, happend]
  unfold Box.considerRelayCommand
  split
  · exact .inl rfl
  · split
    · exact .inl rfl
    · split
      · exact .inl rfl
      · exact .inr ⟨_, rfl⟩

variable {operator : String} {s s' : CommandRun} {timestamp : ℚ}

/-- The relay remembers the newest command of the sender that has arrived, and has
accepted all of them; those on their way are newer. -/
structure InOrder (operator : String) (s : CommandRun) : Prop where
  size : s.relay.lastAcceptedRelayCommandAt.maxSize = Box.maxTrackedRelayCommandSenders
  senders : ∀ k ∈ s.relay.lastAcceptedRelayCommandAt.keys, k = operator ∨ k ∈ s.others
  others : s.others.length < 256
  paced : s.sender.Paced
  newest : s.relay.lastAcceptedRelayCommandAt.get? operator = s.arrived.getLast?
  accepted : s.relay.acceptedFrom operator = s.arrived
  increasing : (s.arrived ++ s.inTransit).Pairwise (· < ·)
  stamped : ∀ timestamp ∈ s.arrived ++ s.inTransit, timestamp ≤ s.sender.lastSentRelayCommandTimestamp

/-- Senders that are few enough all have room. -/
theorem InOrder.room (h : InOrder operator s) {others : List String} (hfew : others.length < 256)
    (hold : ∀ k ∈ s.others, k ∈ others) {senderId : String} (hsender : senderId = operator ∨ senderId ∈ others) :
    senderId ∈ s.relay.lastAcceptedRelayCommandAt.keys ∨ s.relay.lastAcceptedRelayCommandAt.full = false := by
  by_cases hmem : senderId ∈ s.relay.lastAcceptedRelayCommandAt.keys
  · exact .inl hmem
  · right
    have hnodup : (senderId :: s.relay.lastAcceptedRelayCommandAt.keys).Nodup :=
      List.nodup_cons.mpr ⟨hmem, OrderedMap.nodup_keys _⟩
    have hsub : (senderId :: s.relay.lastAcceptedRelayCommandAt.keys) ⊆ operator :: others := by
      intro k hk
      rw [List.mem_cons]
      rcases List.mem_cons.mp hk with rfl | hk
      · exact hsender
      · exact (h.senders k hk).imp_right (hold k)
    have hlength := (hnodup.subperm hsub).length_le
    have hkeys : s.relay.lastAcceptedRelayCommandAt.keys.length = s.relay.lastAcceptedRelayCommandAt.size :=
      OrderedMap.length_keys _
    rw [List.length_cons, List.length_cons, hkeys] at hlength
    rw [BoundedFifoMap.full, h.size, Box.maxTrackedRelayCommandSenders, decide_eq_false_iff_not, not_le,
      WithTop.coe_lt_coe]
    omega

/-- The relay takes over a newer state in which its guard is the same. -/
theorem InOrder.of_guard (h : InOrder operator s) {relay : Box}
    (hlast : relay.lastAcceptedRelayCommandAt = s.relay.lastAcceptedRelayCommandAt)
    (hlog : relay.rebootRequests = s.relay.rebootRequests) : InOrder operator { s with relay } where
  size := by rw [hlast]; exact h.size
  senders := by rw [hlast]; exact h.senders
  others := h.others
  paced := h.paced
  newest := by rw [hlast]; exact h.newest
  accepted := by rw [Box.acceptedFrom, hlog, ← Box.acceptedFrom]; exact h.accepted
  increasing := h.increasing
  stamped := h.stamped

/-- A command that has arrived is not newer than the newest. -/
theorem InOrder.isReplay (h : InOrder operator s) (hmem : timestamp ∈ s.arrived) :
    s.relay.isReplay operator timestamp = true := by
  obtain ⟨front, last, hsplit⟩ : ∃ front last, s.arrived = front ++ [last] :=
    ⟨_, _, (List.dropLast_append_getLast (List.ne_nil_of_mem hmem)).symm⟩
  have hle : timestamp ≤ last := by
    have hpairs := (List.pairwise_append.mp h.increasing).1
    rw [hsplit] at hpairs hmem
    rcases List.mem_append.mp hmem with hfront | hlast
    · exact ((List.pairwise_append.mp hpairs).2.2 timestamp hfront last (List.mem_singleton_self _)).le
    · exact (List.mem_singleton.mp hlast).le
  rw [Box.isReplay, h.newest, hsplit, List.getLast?_concat]
  exact decide_eq_true hle

/-- A command on its way is newer than all that have arrived. -/
theorem InOrder.not_isReplay (h : InOrder operator s) (hmem : timestamp ∈ s.inTransit) :
    s.relay.isReplay operator timestamp = false := by
  rw [Box.isReplay, h.newest]
  cases hlast : s.arrived.getLast? with
  | none => rfl
  | some last =>
    have hlt := (List.pairwise_append.mp h.increasing).2.2 last (List.mem_of_getLast? hlast) timestamp hmem
    exact decide_eq_false (not_le.mpr hlt)

theorem InOrder.sent (h : InOrder operator s) {targetNodeId : String} {keyKnown : Bool} {now : ℤ}
    (hnow : now ≤ CommandSender.maxTimeValue) {sender : CommandSender} {r : Except String ℚ}
    (hsend : s.sender.sendRelayCommand targetNodeId keyKnown now = (sender, r)) :
    InOrder operator
      { s with sender, inTransit := s.inTransit ++ transmitted s.relay.nodeId targetNodeId r } := by
  obtain ⟨hpaced, hcases⟩ := h.paced.send_cases hnow hsend
  have hstamp : s.sender.lastSentRelayCommandTimestamp ≤ sender.lastSentRelayCommandTimestamp := by
    rcases hcases with ⟨message, -, hsame⟩ | ⟨timestamp, -, hlast, hlt⟩
    · exact hsame.ge
    · exact hlast ▸ hlt.le
  have hnew : ∀ timestamp ∈ transmitted s.relay.nodeId targetNodeId r,
      s.sender.lastSentRelayCommandTimestamp < timestamp ∧
        timestamp = sender.lastSentRelayCommandTimestamp := by
    intro timestamp hmem
    rcases hcases with ⟨message, rfl, -⟩ | ⟨stamp, rfl, hlast, hlt⟩
    · cases hmem
    · rw [transmitted] at hmem
      split_ifs at hmem
      · obtain rfl := List.mem_singleton.mp hmem
        exact ⟨hlt, hlast.symm⟩
      · cases hmem
  have hsingle : (transmitted s.relay.nodeId targetNodeId r).Pairwise (· < ·) := by
    cases r with
    | error message => exact List.Pairwise.nil
    | ok stamp =>
      rw [transmitted]
      split_ifs
      · exact List.pairwise_singleton _ _
      · exact List.Pairwise.nil
  refine ⟨h.size, h.senders, h.others, hpaced, h.newest, h.accepted, ?_, ?_⟩
  · rw [← List.append_assoc, List.pairwise_append]
    refine ⟨h.increasing, hsingle, ?_⟩
    intro old hold timestamp hmem
    exact (h.stamped old hold).trans_lt (hnew timestamp hmem).1
  · intro timestamp hmem
    rw [← List.append_assoc] at hmem
    rcases List.mem_append.mp hmem with hold | hmem
    · exact (h.stamped timestamp hold).trans hstamp
    · exact (hnew timestamp hmem).2.le

theorem InOrder.delivered (h : InOrder operator s) {rest : List ℚ} (hnext : s.inTransit = timestamp :: rest)
    (htrusted : meetsTrustLevel (s.relay.trust.get operator) s.relay.minTrustForRelayCommand = true)
    (packetId : String) :
    InOrder operator
      { s.receive operator packetId (Box.rebootCommand timestamp) with
        inTransit := rest
        arrived := s.arrived ++ [timestamp] } := by
  have hmem : timestamp ∈ s.inTransit := hnext ▸ List.mem_cons_self
  have haccepts : s.relay.handlePrivateMessage operator packetId (Box.rebootCommand timestamp) =
      s.relay.acceptRelayCommand operator timestamp := by
    rw [Box.handlePrivateMessage_rebootCommand, Box.considerRelayCommand]
    dsimp only
    rw [htrusted, h.not_isReplay hmem]
    rfl
  have hpos : 0 < s.relay.lastAcceptedRelayCommandAt.maxSize :=
    h.size ▸ Box.maxTrackedRelayCommandSenders_pos
  have hroom := h.room h.others (fun _ hk => hk) (.inl rfl)
  have hlist : s.arrived ++ s.inTransit = (s.arrived ++ [timestamp]) ++ rest := by
    rw [hnext, List.append_assoc, List.singleton_append]
  unfold receive
  rw [haccepts]
  refine ⟨?_, ?_, h.others, h.paced, ?_, ?_, hlist ▸ h.increasing, hlist ▸ h.stamped⟩
  · exact (BoundedFifoMap.maxSize_set _ _ _ _).trans h.size
  · intro k hk
    have hhas := (BoundedFifoMap.has_set_of_room hpos hroom k).mp (BoundedFifoMap.has_iff.mpr hk)
    rcases hhas with hold | rfl
    · exact h.senders k (BoundedFifoMap.has_iff.mp hold)
    · exact .inl rfl
  · rw [List.getLast?_concat]
    exact BoundedFifoMap.get?_set_self _ _ _ hpos
  · rw [Box.acceptedFrom_append (b := s.relay) rfl, if_pos rfl, h.accepted]

theorem InOrder.replayed (h : InOrder operator s) (hmem : timestamp ∈ s.arrived) (packetId : String) :
    InOrder operator (s.receive operator packetId (Box.rebootCommand timestamp)) := by
  have hsame : s.relay.handlePrivateMessage operator packetId (Box.rebootCommand timestamp) = s.relay := by
    rw [Box.handlePrivateMessage_rebootCommand]
    exact Box.considerRelayCommand_of_isReplay (h.isReplay hmem)
  unfold receive
  rw [hsame]
  exact h

theorem InOrder.other (h : InOrder operator s) {senderId : String} (hne : senderId ≠ operator)
    (hfew : (s.others.insert senderId).length < 256) (packetId : String) (payload : JsValue) :
    InOrder operator { s.receive senderId packetId payload with others := s.others.insert senderId } := by
  have hold : ∀ k ∈ s.others, k ∈ s.others.insert senderId := fun k hk => List.mem_insert_of_mem hk
  have hsenders : ∀ k ∈ s.relay.lastAcceptedRelayCommandAt.keys,
      k = operator ∨ k ∈ s.others.insert senderId := fun k hk => (h.senders k hk).imp_right (hold k)
  obtain ⟨appends, hsame | ⟨timestamp, haccepts⟩⟩ := handlePrivateMessage_cases s.relay senderId packetId payload
  · unfold receive
    rw [hsame]
    exact ⟨h.size, hsenders, hfew, h.paced, h.newest, h.accepted, h.increasing, h.stamped⟩
  · have hpos : 0 < s.relay.lastAcceptedRelayCommandAt.maxSize :=
      h.size ▸ Box.maxTrackedRelayCommandSenders_pos
    have hroom := h.room hfew hold (.inr List.mem_insert_self)
    unfold receive
    rw [haccepts]
    refine ⟨?_, ?_, hfew, h.paced, ?_, ?_, h.increasing, h.stamped⟩
    · exact (BoundedFifoMap.maxSize_set _ _ _ _).trans h.size
    · intro k hk
      have hhas := (BoundedFifoMap.has_set_of_room hpos hroom k).mp (BoundedFifoMap.has_iff.mpr hk)
      rcases hhas with hkept | rfl
      · exact hsenders k (BoundedFifoMap.has_iff.mp hkept)
      · exact .inr List.mem_insert_self
    · have hget : (s.relay.lastAcceptedRelayCommandAt.set (some s.relay.senderScore) senderId timestamp).get?
          operator = s.relay.lastAcceptedRelayCommandAt.get? operator := by
        rw [BoundedFifoMap.get?_set_of_room hpos hroom, if_neg (Ne.symm hne)]
      exact hget.trans h.newest
    · rw [Box.acceptedFrom_append (b := s.relay) rfl, if_neg hne, List.append_nil, h.accepted]

theorem InOrder.step (h : InOrder operator s) {e : CommandEvent} (hfew : s.fewSenders e = true)
    (htrusted : s.trusted operator e = true) (hstep : s.step operator e = some s') : InOrder operator s' := by
  cases e with
  | sent targetNodeId keyKnown now =>
    rw [CommandRun.step] at hstep
    split_ifs at hstep with hnow
    obtain rfl := Option.some_inj.mp hstep
    exact h.sent (abs_le.mp hnow).2 rfl
  | delivered packetId =>
    rw [CommandRun.step] at hstep
    cases hnext : s.inTransit with
    | nil =>
      rw [hnext] at hstep
      cases hstep
    | cons timestamp rest =>
      rw [hnext] at hstep
      obtain rfl := Option.some_inj.mp hstep
      exact h.delivered hnext htrusted packetId
  | lost =>
    rw [CommandRun.step] at hstep
    split_ifs at hstep
    obtain rfl := Option.some_inj.mp hstep
    have hsub : (s.arrived ++ s.inTransit.tail).Sublist (s.arrived ++ s.inTransit) :=
      List.Sublist.append_left (List.tail_sublist _) _
    exact ⟨h.size, h.senders, h.others, h.paced, h.newest, h.accepted, h.increasing.sublist hsub,
      fun timestamp hmem => h.stamped timestamp (hsub.subset hmem)⟩
  | replayed i packetId =>
    rw [CommandRun.step] at hstep
    cases harrived : s.arrived[i]? with
    | none =>
      rw [harrived] at hstep
      cases hstep
    | some timestamp =>
      rw [harrived] at hstep
      obtain rfl := Option.some_inj.mp hstep
      exact h.replayed (List.mem_of_getElem? harrived) packetId
  | other senderId packetId payload =>
    rw [CommandRun.step] at hstep
    split_ifs at hstep with hne
    obtain rfl := Option.some_inj.mp hstep
    exact h.other hne (of_decide_eq_true hfew) packetId payload
  | setTrust nodeId level =>
    obtain rfl := Option.some_inj.mp hstep
    exact h.of_guard rfl rfl
  | peerSeen peerId =>
    obtain rfl := Option.some_inj.mp hstep
    exact h.of_guard rfl rfl

theorem inOrder_of_reachable
    (h : (system operator).ReachableUnder (fun s e => s.fewSenders e = true ∧ s.trusted operator e = true) s) :
    InOrder operator s := by
  apply h.invariant
  · rintro _ ⟨nodeId, o, rfl⟩
    exact ⟨rfl, (fun k hk => by cases hk), Nat.zero_lt_succ 255, .initial, rfl, rfl, List.Pairwise.nil,
      (fun timestamp hmem => by cases hmem)⟩
  · intro s e s' hs hcond hstep
    exact hs.step hcond.1 hcond.2 hstep

/-- In every run in which the relay hears of fewer than 256 other senders and trusts
the operator whenever a command of it arrives, the relay has accepted each of the
operator's commands that have arrived, once and in the order of arrival. -/
theorem accepted_when_delivered
    (h : (system operator).ReachableUnder (fun s e => s.fewSenders e = true ∧ s.trusted operator e = true) s) :
    s.relay.acceptedFrom operator = s.arrived :=
  (inOrder_of_reachable h).accepted

/-- Three commands at one reading of the clock and an earlier one; the first arrives twice. -/
def burst : List CommandEvent :=
  [ .setTrust "operator" .admin, .sent "relay" true 1000, .sent "relay" true 1000, .sent "relay" true 900,
    .delivered "m1", .replayed 0 "m1", .other "stranger" "m2" (Box.rebootCommand 5000), .delivered "m3",
    .replayed 0 "m1", .delivered "m4" ]

def burstStart : CommandRun := ⟨Box.create "relay" {}, {}, [], [], []⟩

theorem accepted_when_delivered_burst :
    ∃ s, (system "operator").runUnder (fun s e => s.fewSenders e && s.trusted "operator" e) burstStart burst =
        some s ∧ s.arrived = [1000, 1001, 1002] ∧ s.relay.acceptedFrom "operator" = [1000, 1001, 1002] := by
  have hrun : ((system "operator").runUnder (fun s e => s.fewSenders e && s.trusted "operator" e) burstStart
      burst).map CommandRun.arrived = some [1000, 1001, 1002] := by
    decide +kernel
  obtain ⟨s, hs, harrived⟩ := Option.map_eq_some_iff.mp hrun
  have hreach := System.reachableUnder_of_runUnder (S := system "operator") ⟨"relay", {}, rfl⟩ hs
  have haccepted := accepted_when_delivered (hreach.mono fun s e hcond => by simpa using hcond)
  exact ⟨s, hs, harrived, haccepted.trans harrived⟩

/-- A relay that was never told to trust the operator accepts nothing of it. -/
theorem untrusted_command_rejected :
    ¬∀ operator s, (system operator).ReachableUnder (fun s e => s.fewSenders e = true) s →
      s.relay.acceptedFrom operator = s.arrived := by
  intro hclaim
  have hrun : ((system "operator").runUnder fewSenders burstStart [.sent "relay" true 1000, .delivered "m1"]).map
      (fun s => (s.arrived, s.relay.acceptedFrom "operator")) = some ([1000], []) := by
    decide +kernel
  obtain ⟨s, hs, hview⟩ := Option.map_eq_some_iff.mp hrun
  obtain ⟨harrived, haccepted⟩ := Prod.mk.inj hview
  have hsame := hclaim "operator" s (System.reachableUnder_of_runUnder ⟨"relay", {}, rfl⟩ hs)
  rw [harrived, haccepted] at hsame
  cases hsame

end CommandRun
end Arald
