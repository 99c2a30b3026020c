import Arald.Ingest.Frames

/-!
# Replayed relay commands

A sender's commands are accepted with increasing timestamps for as long as the
node remembers the last one. It remembers 256 senders. A command of a sender it
does not know, accepted when it remembers that many, makes it forget the sender
it trusts least, the one it has known longest among equals; a command of that
sender can then be accepted a second time.
-/

namespace Arald

open Foundations

namespace Box

variable {p : Platform} {b b' : Box} {sender : String}

/-- The timestamps of the commands accepted from a sender, in order. -/
def acceptedFrom (b : Box) (sender : String) : List ℚ :=
  (b.rebootRequests.filter fun c => c.1 = sender).map Prod.snd

/-! ### What a step does to the replay guard -/

/-- From `b` to `b'` the replay guard is as it was, or took in one command that
is newer than what it remembers of its sender. -/
def RelayStep (b b' : Box) : Prop :=
  (b'.lastAcceptedRelayCommandAt = b.lastAcceptedRelayCommandAt ∧
      b'.rebootRequests = b.rebootRequests) ∨
    ∃ senderId timestamp, b.isReplay senderId timestamp = false ∧
      b'.lastAcceptedRelayCommandAt =
        b.lastAcceptedRelayCommandAt.set (some b.senderScore) senderId timestamp ∧
      b'.rebootRequests = b.rebootRequests ++ [(senderId, timestamp)]

theorem considerRelayCommand_relayStep (senderId : String) (command : Option RelayCommandPayload) :
    RelayStep b (b.considerRelayCommand senderId command) := by
  unfold considerRelayCommand
  split
  · exact .inl ⟨rfl, rfl⟩
  · split
    · exact .inl ⟨rfl, rfl⟩
    · split
      · exact .inl ⟨rfl, rfl⟩
      · next hreplay =>
        exact .inr ⟨senderId, _, eq_false_of_ne_true hreplay, rfl, rfl⟩

theorem handlePrivateMessage_relayStep (senderId packetId : String) (payload : JsValue) :
    RelayStep b (b.handlePrivateMessage senderId packetId payload) := by
  unfold handlePrivateMessage
  obtain ⟨appends, heq⟩ := considerNodeAppend_frame (b := b) senderId
    (extractNodeAppendPayload payload packetId senderId)
  rw [heq]
  exact considerRelayCommand_relayStep (b := { b with nodeAppends := appends }) senderId _

theorem ingestSignedRelayCommand_relayStep (submission : JsValue) (t : Readings) :
    RelayStep b (b.ingestSignedRelayCommand p submission t).1 := by
  unfold ingestSignedRelayCommand
  split
  · next hallow =>
    obtain ⟨limiter, rfl⟩ := allowCaller_frame hallow
    exact .inl ⟨rfl, rfl⟩
  · next hallow =>
    obtain ⟨limiter, rfl⟩ := allowCaller_frame hallow
    split
    · exact .inl ⟨rfl, rfl⟩
    · split
      · exact .inl ⟨rfl, rfl⟩
      · split
        · exact .inl ⟨rfl, rfl⟩
        · next hreplay =>
          split
          · next hcharge =>
            obtain ⟨window, rfl⟩ := tryConsumeHttpIngestedRelayCommandBudget_frame hcharge
            exact .inl ⟨rfl, rfl⟩
          · next hcharge =>
            obtain ⟨window, rfl⟩ := tryConsumeHttpIngestedRelayCommandBudget_frame hcharge
            exact .inr ⟨_, _, eq_false_of_ne_true hreplay, rfl, rfl⟩

theorem step_relayStep (e : BoxEvent) : RelayStep b (b.step p e) := by
  cases e with
  | ingestSignedContent metadata data options t =>
    obtain ⟨_, _, _, _, _, heq⟩ := ingestSignedContent_frame (p := p) (b := b) (t := t) metadata data
      options
    exact .inl ⟨by rw [step, heq], by rw [step, heq]⟩
  | ingestSignedNodeAppend submission t =>
    obtain ⟨_, _, _, _, heq⟩ := ingestSignedNodeAppend_frame (p := p) (b := b) (t := t) submission
    exact .inl ⟨by rw [step, heq], by rw [step, heq]⟩
  | ingestSignedRelayCommand submission t => exact ingestSignedRelayCommand_relayStep submission t
  | ingestExternalDelivery payload t =>
    obtain ⟨_, _, _, heq⟩ := ingestExternalDelivery_frame (p := p) (b := b) (t := t) payload
    exact .inl ⟨by rw [step, heq], by rw [step, heq]⟩
  | publishDrop request t =>
    obtain ⟨_, _, _, _, heq⟩ := publishDrop_frame (p := p) (b := b) (t := t) request
    exact .inl ⟨by rw [step, heq], by rw [step, heq]⟩
  | privateMessage senderId packetId payload =>
    exact handlePrivateMessage_relayStep senderId packetId payload
  | catalogEntry metadata t =>
    obtain ⟨_, _, _, heq⟩ := acceptCatalogEntry_frame (p := p) (b := b) (t := t) metadata
    exact .inl ⟨by rw [step, heq], by rw [step, heq]⟩
  | peerSeen peerId => exact .inl ⟨rfl, rfl⟩
  | setTrust nodeId level => exact .inl ⟨rfl, rfl⟩
  | deliverySent packetId => exact .inl ⟨rfl, rfl⟩

/-! ### Which senders are forgotten -/

/-- Some remembered sender would be forgotten before `sender`: it is trusted
less, or not more and has been remembered for longer. -/
def outlasts (b : Box) (sender : String) : Bool :=
  let entries := b.lastAcceptedRelayCommandAt.entries
  (entries.takeWhile fun e => e.1 ≠ sender).any (fun e => b.authorTrust e.1 ≤ b.authorTrust sender) ||
    (entries.dropWhile fun e => e.1 ≠ sender).any fun e => b.authorTrust e.1 < b.authorTrust sender

theorem not_victim_of_outlasts {key : String} (h : b.outlasts sender = true) :
    b.lastAcceptedRelayCommandAt.victim? (some b.senderScore) key ≠ some sender := by
  intro hvictim
  have hpick : b.lastAcceptedRelayCommandAt.pickEvictionCandidate (some b.senderScore) =
      some sender := by
    unfold BoundedFifoMap.victim? at hvictim
    split_ifs at hvictim
    exact hvictim
  obtain ⟨l₁, v, l₂, hentries, hbefore, hafter⟩ :=
    BoundedFifoMap.pickEvictionCandidate_first (fun e _ => WithTop.coe_lt_top _) hpick
  have hfirst : ∀ e ∈ l₁, e.1 ≠ sender := by
    rintro e he rfl
    have hlt := hbefore e he
    exact absurd hlt (lt_irrefl _)
  simp only [outlasts, hentries, Bool.or_eq_true, List.any_eq_true, decide_eq_true_eq] at h
  rcases h with ⟨e, he, hle⟩ | ⟨e, he, hlt⟩
  · rw [List.takeWhile_append_of_pos (by simpa using hfirst)] at he
    have hmem : e ∈ l₁ := by simpa using he
    exact absurd (WithTop.coe_lt_coe.mp (hbefore e hmem)) (not_lt.mpr hle)
  · rw [List.dropWhile_append_of_pos (by simpa using hfirst)] at he
    have hmem : e = (sender, v) ∨ e ∈ l₂ := by simpa using he
    rcases hmem with rfl | hmem
    · exact absurd hlt (lt_irrefl _)
    · exact absurd hlt (not_lt.mpr (WithTop.coe_le_coe.mp (hafter e hmem)))

/-- The commands accepted in a step. -/
def newlyAccepted (b b' : Box) : List (String × ℚ) :=
  b'.rebootRequests.drop b.rebootRequests.length

/-- Should the step accept a command of a sender that is not remembered, while
no other can be, then a sender outlasted by `sender` is there to be forgotten. -/
def remembers (p : Platform) (sender : String) (b : Box) (e : BoxEvent) : Bool :=
  (b.newlyAccepted (b.step p e)).all fun c =>
    b.lastAcceptedRelayCommandAt.has c.1 || !b.lastAcceptedRelayCommandAt.full || b.outlasts sender

/-- All of a sender's accepted commands are covered by the entry it has. -/
structure Guarded (sender : String) (b : Box) : Prop where
  size : b.lastAcceptedRelayCommandAt.maxSize = maxTrackedRelayCommandSenders
  increasing : (b.acceptedFrom sender).Pairwise (· < ·)
  covered : ∀ timestamp ∈ b.acceptedFrom sender,
    ∃ last, b.lastAcceptedRelayCommandAt.get? sender = some last ∧ timestamp ≤ last

theorem maxTrackedRelayCommandSenders_pos : 0 < maxTrackedRelayCommandSenders := by
  decide

theorem Guarded.create (nodeId : String) (o : BoxOptions) (sender : String) :
    Guarded sender (create nodeId o) :=
  ⟨rfl, List.Pairwise.nil, by simp [acceptedFrom, Box.create]⟩

theorem acceptedFrom_append {senderId : String} {timestamp : ℚ}
    (h : b'.rebootRequests = b.rebootRequests ++ [(senderId, timestamp)]) (sender : String) :
    b'.acceptedFrom sender =
      b.acceptedFrom sender ++ (if senderId = sender then [timestamp] else []) := by
  rw [acceptedFrom, h, List.filter_append, List.map_append, ← acceptedFrom]
  congr 1
  by_cases heq : senderId = sender <;> simp [heq]

/-- An accepted command of the sender itself is newer than all before it. -/
theorem Guarded.lt_of_not_isReplay (h : Guarded sender b) {timestamp : ℚ}
    (hnew : b.isReplay sender timestamp = false) : ∀ t ∈ b.acceptedFrom sender, t < timestamp := by
  intro t ht
  obtain ⟨last, hlast, hle⟩ := h.covered t ht
  have hlt : last < timestamp := by simpa [isReplay, hlast] using hnew
  exact hle.trans_lt hlt

theorem Guarded.accept (h : Guarded sender b) {senderId : String} {timestamp : ℚ}
    (hnew : b.isReplay senderId timestamp = false)
    (hroom : senderId ∈ b.lastAcceptedRelayCommandAt.keys ∨
      b.lastAcceptedRelayCommandAt.full = false ∨ b.outlasts sender = true)
    (hlast : b'.lastAcceptedRelayCommandAt =
      b.lastAcceptedRelayCommandAt.set (some b.senderScore) senderId timestamp)
    (hlog : b'.rebootRequests = b.rebootRequests ++ [(senderId, timestamp)]) :
    Guarded sender b' := by
  have hpos : 0 < b.lastAcceptedRelayCommandAt.maxSize := h.size ▸ maxTrackedRelayCommandSenders_pos
  have hsize : b'.lastAcceptedRelayCommandAt.maxSize = maxTrackedRelayCommandSenders := by
    rw [hlast, BoundedFifoMap.maxSize_set, h.size]
  by_cases hsender : senderId = sender
  · subst hsender
    have hold := h.lt_of_not_isReplay hnew
    have hlog' : b'.acceptedFrom senderId = b.acceptedFrom senderId ++ [timestamp] := by
      simp [acceptedFrom_append hlog]
    refine ⟨hsize, ?_, ?_⟩
    · rw [hlog', List.pairwise_append]
      exact ⟨h.increasing, by simp, by simpa using hold⟩
    · intro t ht
      refine ⟨timestamp, by rw [hlast, BoundedFifoMap.get?_set_self _ _ _ hpos], ?_⟩
      rw [hlog'] at ht
      rcases List.mem_append.mp ht with hbefore | hnow
      · exact (hold t hbefore).le
      · exact (List.mem_singleton.mp hnow).le
  · have hlog' : b'.acceptedFrom sender = b.acceptedFrom sender := by
      simp [acceptedFrom_append hlog, hsender]
    refine ⟨hsize, hlog' ▸ h.increasing, ?_⟩
    intro t ht
    obtain ⟨last, hget, hle⟩ := h.covered t (hlog' ▸ ht)
    refine ⟨last, ?_, hle⟩
    rw [hlast]
    exact BoundedFifoMap.get?_set_of_survives hpos (Ne.symm hsender) hget
      (hroom.imp_right (Or.imp_right fun hout => not_victim_of_outlasts hout))

theorem Guarded.step {e : BoxEvent} (h : Guarded sender b) (hrem : b.remembers p sender e = true) :
    Guarded sender (b.step p e) := by
  rcases b.step_relayStep (p := p) e with ⟨hlast, hlog⟩ | ⟨senderId, timestamp, hnew, hlast, hlog⟩
  · have hsame : (b.step p e).acceptedFrom sender = b.acceptedFrom sender := by
      rw [acceptedFrom, hlog, acceptedFrom]
    exact ⟨hlast ▸ h.size, hsame ▸ h.increasing, by rw [hsame, hlast]; exact h.covered⟩
  · have hroom : senderId ∈ b.lastAcceptedRelayCommandAt.keys ∨
        b.lastAcceptedRelayCommandAt.full = false ∨ b.outlasts sender = true := by
      simpa [remembers, newlyAccepted, hlog, BoundedFifoMap.has_iff, or_assoc] using hrem
    exact h.accept hnew hroom hlast hlog

/-! ### A remembered sender's commands are executed once -/

theorem guarded_of_reachable
    (h : (system p).ReachableUnder (fun b e => b.remembers p sender e = true) b) :
    Guarded sender b := by
  apply h.invariant
  · rintro _ ⟨nodeId, o, rfl⟩
    exact Guarded.create nodeId o sender
  · intro b e b' hb hrem hstep
    obtain rfl : b.step p e = b' := Option.some_inj.mp hstep
    exact hb.step hrem

theorem Guarded.isReplay (h : Guarded sender b) {timestamp : ℚ}
    (hmem : timestamp ∈ b.acceptedFrom sender) : b.isReplay sender timestamp = true := by
  obtain ⟨last, hlast, hle⟩ := h.covered timestamp hmem
  simpa [Box.isReplay, hlast] using hle

theorem considerRelayCommand_of_isReplay {command : RelayCommandPayload}
    (h : b.isReplay sender command.timestamp = true) :
    b.considerRelayCommand sender (some command) = b := by
  simp [considerRelayCommand, h]

theorem ingestSignedRelayCommand_of_isReplay {submission : JsValue} {t : Readings}
    {verified : SignedRelayCommandSubmission}
    (hverified : verifySignedRelayCommandSubmission p submission = some verified)
    (h : b.isReplay verified.publisherId verified.timestamp = true) :
    (b.ingestSignedRelayCommand p submission t).2 ≠ .accepted ∧
      (b.ingestSignedRelayCommand p submission t).1.rebootRequests = b.rebootRequests := by
  unfold ingestSignedRelayCommand
  split
  · next hallow =>
    obtain ⟨limiter, rfl⟩ := allowCaller_frame hallow
    exact ⟨by simp, rfl⟩
  · next hallow =>
    obtain ⟨limiter, rfl⟩ := allowCaller_frame hallow
    rw [hverified]
    dsimp only
    split
    · exact ⟨by simp, rfl⟩
    · rw [if_pos (show Box.isReplay { b with ingestRateLimiter := limiter } verified.publisherId
        verified.timestamp = true from h)]
      exact ⟨by simp, rfl⟩

/-- In every run in which `sender` outlasts some remembered sender whenever one
has to be forgotten, its commands are accepted with increasing timestamps, and
none of them is accepted again on either path. -/
theorem relay_commands_executed_once {p : Platform} {sender : String} {b : Box}
    (h : (system p).ReachableUnder (fun b e => b.remembers p sender e = true) b) :
    (b.acceptedFrom sender).Pairwise (· < ·) ∧
      ∀ timestamp ∈ b.acceptedFrom sender,
        (∀ packetId payload command, extractRelayCommand payload = some command →
          command.timestamp = timestamp →
            (b.handlePrivateMessage sender packetId payload).rebootRequests = b.rebootRequests) ∧
        ∀ submission verified t, verifySignedRelayCommandSubmission p submission = some verified →
          verified.publisherId = sender → verified.timestamp = timestamp →
            (b.ingestSignedRelayCommand p submission t).2 ≠ .accepted ∧
            (b.ingestSignedRelayCommand p submission t).1.rebootRequests = b.rebootRequests := by
  have hguard := guarded_of_reachable h
  refine ⟨hguard.increasing, ?_⟩
  intro timestamp hmem
  have hreplay := hguard.isReplay hmem
  constructor
  · rintro packetId payload command hcommand rfl
    unfold handlePrivateMessage
    obtain ⟨appends, heq⟩ := considerNodeAppend_frame (b := b) sender
      (extractNodeAppendPayload payload packetId sender)
    rw [heq, hcommand]
    dsimp only
    rw [considerRelayCommand_of_isReplay (b := { b with nodeAppends := appends }) hreplay]
  · rintro submission verified t hverified rfl rfl
    exact ingestSignedRelayCommand_of_isReplay hverified hreplay

/-- A reboot command as a private message carries it. -/
def rebootCommand (timestamp : ℚ) : JsValue :=
  .obj [("type", .str "relay-command"), ("command", .str "reboot"),
    ("timestamp", .num (.finite timestamp))]

/-- A reboot command is no append, and reaches the guard as it was sent. -/
theorem handlePrivateMessage_rebootCommand (b : Box) (senderId packetId : String) (timestamp : ℚ) :
    b.handlePrivateMessage senderId packetId (rebootCommand timestamp) =
      b.considerRelayCommand senderId (some ⟨timestamp⟩) := by
  have happend : extractNodeAppendPayload (rebootCommand timestamp) packetId senderId = none := by
    simp [extractNodeAppendPayload, rebootCommand, JsValue.prop, JsValue.string?, JsValue.isObject]
  have hcommand : extractRelayCommand (rebootCommand timestamp) = some ⟨timestamp⟩ := by
    simp [extractRelayCommand, rebootCommand, JsValue.prop, JsValue.string?, JsValue.isObject,
      JsValue.finite?]
  rw [handlePrivateMessage, happend, hcommand]
  rfl

theorem relay_commands_executed_once_operator :
    ∃ b, (system (samplePlatform [])).ReachableUnder
        (fun b e => b.remembers (samplePlatform []) "operator" e = true) b ∧
      b.acceptedFrom "operator" = [1, 2] ∧ (b.acceptedFrom "operator").Pairwise (· < ·) := by
  have hrun : (((system (samplePlatform [])).runUnder
      (fun b e => b.remembers (samplePlatform []) "operator" e) (create "relay" {})
      [.setTrust "operator" .admin,
        .privateMessage "operator" "m1" (rebootCommand 1),
        .privateMessage "stranger" "m2" (rebootCommand 5),
        .privateMessage "operator" "m1" (rebootCommand 1),
        .privateMessage "operator" "m3" (rebootCommand 2)]).map
          fun b => b.acceptedFrom "operator") = some [1, 2] := by
    decide
  obtain ⟨b, hb, hlog⟩ := Option.map_eq_some_iff.mp hrun
  have hreach : (system (samplePlatform [])).ReachableUnder
      (fun b e => b.remembers (samplePlatform []) "operator" e = true) b :=
    System.reachableUnder_of_runUnder ⟨"relay", {}, rfl⟩ hb
  exact ⟨b, hreach, hlog, (relay_commands_executed_once hreach).1⟩

/-! ### A crowd of senders makes the relay forget -/

/-- A relay that takes commands from anyone and has taken one of every name. -/
structure Crowded (names : List String) (b : Box) : Prop where
  admits : b.minTrustForRelayCommand = .unknown
  strangers : b.trust.levels = .empty
  size : b.lastAcceptedRelayCommandAt.maxSize = maxTrackedRelayCommandSenders
  remembered : b.lastAcceptedRelayCommandAt.entries = names.map fun name => (name, 1)
  log : b.rebootRequests = names.map fun name => (name, 1)

theorem step_privateMessage_of_new (p : Platform) (packetId : String)
    (hopen : b.minTrustForRelayCommand = .unknown) {timestamp : ℚ} (hnew : b.isReplay sender timestamp = false) :
    b.step p (.privateMessage sender packetId (rebootCommand timestamp)) =
      b.acceptRelayCommand sender timestamp := by
  have htrust : meetsTrustLevel (b.trust.get sender) .unknown = true := by
    cases hlevel : b.trust.get sender <;> decide
  rw [step, handlePrivateMessage_rebootCommand]
  simp [considerRelayCommand, hopen, htrust, hnew]

theorem Crowded.keys {names : List String} (h : Crowded names b) :
    b.lastAcceptedRelayCommandAt.keys = names := by
  have hkeys : b.lastAcceptedRelayCommandAt.keys =
      b.lastAcceptedRelayCommandAt.entries.map Prod.fst := rfl
  simp [hkeys, h.remembered, Function.comp_def]

theorem Crowded.length {names : List String} (h : Crowded names b) :
    b.lastAcceptedRelayCommandAt.size = names.length := by
  rw [← h.keys]
  exact (OrderedMap.length_keys _).symm

theorem Crowded.isReplay {names : List String} (h : Crowded names b) (hnew : sender ∉ names) :
    b.isReplay sender 1 = false := by
  have hkeys : sender ∉ b.lastAcceptedRelayCommandAt.keys := by rwa [h.keys]
  simp [Box.isReplay, BoundedFifoMap.get?_eq_none.mpr hkeys]

theorem Crowded.full {names : List String} (h : Crowded names b) :
    b.lastAcceptedRelayCommandAt.full = decide (256 ≤ names.length) := by
  rw [BoundedFifoMap.full, h.length, h.size, maxTrackedRelayCommandSenders]
  congr 1
  rw [WithTop.coe_le_coe]
  norm_cast

/-- To a relay that trusts nobody all senders are equal. -/
theorem Crowded.senderScore {names : List String} (h : Crowded names b) (name : String) (q : ℚ) :
    b.senderScore name q = ((0 : ℤ) : WithTop ℤ) := by
  simp [Box.senderScore, authorTrust, TrustManager.get, h.strangers, trustRank]

theorem Crowded.accept {names : List String} (h : Crowded names b) (hnew : sender ∉ names)
    (hroom : names.length < 256) : Crowded (names ++ [sender]) (b.acceptRelayCommand sender 1) := by
  have hpos : 0 < b.lastAcceptedRelayCommandAt.maxSize := h.size ▸ maxTrackedRelayCommandSenders_pos
  have hfull : b.lastAcceptedRelayCommandAt.full = false := by
    rw [h.full]
    exact decide_eq_false (by omega)
  refine ⟨h.admits, h.strangers, by simpa [acceptRelayCommand] using h.size, ?_, ?_⟩
  · rcases b.lastAcceptedRelayCommandAt.set_cases (some b.senderScore) sender 1 with
      ⟨hmax, -⟩ | ⟨-, -, hmap⟩ | ⟨-, -, hful, -⟩
    · exact absurd hmax (not_le.mpr hpos)
    · have hnew' : sender ∉ b.lastAcceptedRelayCommandAt.map.entries.map Prod.fst := by
        have hentries : b.lastAcceptedRelayCommandAt.map.entries = names.map fun name => (name, 1) :=
          h.remembered
        simpa [hentries] using hnew
      simp only [acceptRelayCommand, BoundedFifoMap.entries, hmap, OrderedMap.set]
      rw [OrderedMap.setEntries_of_notMem _ _ _ hnew', List.map_append]
      exact congrArg (· ++ [(sender, 1)]) h.remembered
    · simp [hfull] at hful
  · simp [acceptRelayCommand, h.log]

/-- Taking one command of every name of a list leaves the relay crowded. -/
theorem Crowded.run {names : List String} (p : Platform) (rest : List String) (h : Crowded names b) (hnodup : (names ++ rest).Nodup)
    (hroom : (names ++ rest).length ≤ 256) :
    ∃ b', (system p).run b (rest.map fun name => .privateMessage name "reboot" (rebootCommand 1)) =
      some b' ∧ Crowded (names ++ rest) b' := by
  induction rest generalizing names b with
  | nil => exact ⟨b, rfl, by simpa using h⟩
  | cons name rest ih =>
    have hnew : name ∉ names := by
      intro hmem
      exact List.disjoint_of_nodup_append hnodup hmem (List.mem_cons_self ..)
    have hlt : names.length < 256 := by
      simp only [List.length_append, List.length_cons] at hroom
      omega
    have hnext := h.accept hnew hlt
    have hassoc : names ++ name :: rest = (names ++ [name]) ++ rest := by simp
    rw [hassoc] at hnodup hroom ⊢
    obtain ⟨b', hrun, hcrowd⟩ := ih hnext hnodup hroom
    refine ⟨b', ?_, hcrowd⟩
    rw [List.map_cons, System.run_cons]
    have hstep := step_privateMessage_of_new p "reboot" h.admits
      (h.isReplay hnew)
    simpa only [system, hstep, Option.bind_some] using hrun

/-- One newcomer more, and the first of the crowd is forgotten. -/
theorem Crowded.forgets {first newcomer : String} {rest : List String}
    (h : Crowded (first :: rest) b) (hlength : (first :: rest).length = 256)
    (hnew : newcomer ∉ first :: rest) :
    (b.acceptRelayCommand newcomer 1).isReplay first 1 = false := by
  have hkeys : newcomer ∉ b.lastAcceptedRelayCommandAt.keys := by rwa [h.keys]
  have hfull : b.lastAcceptedRelayCommandAt.full = true := by
    rw [h.full]
    exact decide_eq_true (by omega)
  have hpos : 0 < b.lastAcceptedRelayCommandAt.maxSize := h.size ▸ maxTrackedRelayCommandSenders_pos
  rcases b.lastAcceptedRelayCommandAt.set_cases (some b.senderScore) newcomer 1 with
    ⟨hmax, -⟩ | ⟨-, hroom, -⟩ | ⟨-, -, -, victim, -, hvictim, hmap⟩
  · exact absurd hmax (not_le.mpr hpos)
  · rcases hroom with hmem | hroom
    · exact absurd hmem hkeys
    · simp [hfull] at hroom
  · have hpick : b.lastAcceptedRelayCommandAt.pickEvictionCandidate (some b.senderScore) =
        some victim := by
      unfold BoundedFifoMap.victim? at hvictim
      split_ifs at hvictim
      exact hvictim
    obtain ⟨l₁, v, l₂, hsplit, hbefore, -⟩ :=
      BoundedFifoMap.pickEvictionCandidate_first (fun e _ => WithTop.coe_lt_top _) hpick
    have hnone : l₁ = [] := by
      apply List.eq_nil_iff_forall_not_mem.mpr
      intro e he
      have hlt := hbefore e he
      rw [h.senderScore, h.senderScore] at hlt
      exact absurd hlt (lt_irrefl _)
    rw [h.remembered, hnone] at hsplit
    obtain rfl : first = victim := by simpa using congrArg (fun l => l.head?.map Prod.fst) hsplit
    have hne : first ≠ newcomer := by
      rintro rfl
      exact hnew (List.mem_cons_self ..)
    have hgone : (b.acceptRelayCommand newcomer 1).lastAcceptedRelayCommandAt.get? first = none := by
      simp only [acceptRelayCommand, BoundedFifoMap.get?, hmap]
      rw [OrderedMap.get?_set_of_ne _ _ hne, OrderedMap.get?_delete_self]
    simp [Box.isReplay, hgone]

def crowdName (n : ℕ) : String := String.ofList (List.replicate n 'x')

theorem crowdName_injective : Function.Injective crowdName := by
  intro m n h
  have hlist := congrArg (fun s : String => s.toList.length) h
  simpa [crowdName] using hlist

def crowd : List String := (List.range 256).map crowdName

theorem notMem_crowd : crowdName 256 ∉ crowd := by
  intro hmem
  obtain ⟨n, hn, hname⟩ := List.mem_map.mp hmem
  have hlt : n < 256 := by simpa using hn
  have heq := crowdName_injective hname
  omega

/-- A command is executed twice: a crowd of 256 newcomers, equally trusted, comes
after the first execution, and the same command comes again. -/
theorem relay_command_executed_twice :
    ¬∀ (p : Platform) (b : Box), (system p).Reachable b →
      ∀ sender, (b.acceptedFrom sender).Pairwise (· < ·) := by
  intro hclaim
  let p := samplePlatform []
  have hinit : Crowded [] (create "relay" { minTrustForRelayCommand := .unknown }) :=
    ⟨rfl, rfl, rfl, rfl, rfl⟩
  have hcrowd : crowd = crowdName 0 :: ((List.range 255).map Nat.succ).map crowdName := by
    rw [crowd, List.range_succ_eq_map, List.map_cons]
  obtain ⟨b, hrun, hb⟩ := hinit.run p crowd
    (by simpa [crowd] using List.nodup_range.map crowdName_injective) (by simp [crowd])
  rw [List.nil_append] at hb
  have hreach : (system p).Reachable b :=
    System.reachable_of_run ⟨"relay", { minTrustForRelayCommand := .unknown }, rfl⟩ hrun
  -- The 257th sender.
  have hstep₁ := step_privateMessage_of_new p "reboot" hb.admits
    (hb.isReplay notMem_crowd)
  -- The first sender's command once more.
  have hforgot : (b.acceptRelayCommand (crowdName 256) 1).isReplay (crowdName 0) 1 = false := by
    have hb' := hcrowd ▸ hb
    exact hb'.forgets (by simp) (hcrowd ▸ notMem_crowd)
  have hstep₂ := step_privateMessage_of_new p "reboot"
    (b := b.acceptRelayCommand (crowdName 256) 1) hb.admits hforgot
  have hreach₂ := (hreach.step trivial (congrArg some hstep₁)).step trivial (congrArg some hstep₂)
  have hincreasing := hclaim p _ hreach₂ (crowdName 0)
  have hother : crowdName 256 ≠ crowdName 0 := fun h => by simpa using crowdName_injective h
  have hlog : ((b.acceptRelayCommand (crowdName 256) 1).acceptRelayCommand (crowdName 0) 1).acceptedFrom
      (crowdName 0) = b.acceptedFrom (crowdName 0) ++ [1] := by
    rw [acceptedFrom_append (b := b.acceptRelayCommand (crowdName 256) 1) rfl, acceptedFrom_append
      (b := b) rfl, if_neg hother, if_pos rfl, List.append_nil]
  have hfirst : (1 : ℚ) ∈ b.acceptedFrom (crowdName 0) := by
    simp [acceptedFrom, hb.log, hcrowd]
  rw [hlog, List.pairwise_append] at hincreasing
  exact absurd (hincreasing.2.2 1 hfirst 1 (List.mem_singleton_self 1)) (lt_irrefl _)

end Box
end Arald
