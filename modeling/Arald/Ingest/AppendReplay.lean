import Arald.Ingest.Frames

/-!
# Replayed node appends

A node append arrives in a private message. Its encrypted payload is
authenticated, the packet around it is not; the registry knows an append by the
id of that packet. A copy under another id is an append of its own, and so is a
copy under the same id once the registry has lost the entry.
-/

namespace Arald

open Foundations

/-- An encrypted payload with the sender whose key opens it. -/
structure SealedMessage where
  source : String
  payload : EncryptedPayload
  deriving DecidableEq

/-- An append that the registry took in, and the packet it came in. -/
structure AppendRecord where
  packetId : String
  message : SealedMessage

structure AppendNode where
  box : Box
  /-- The encryption keys of the senders that are known. -/
  keys : OrderedMap String String
  recorded : List AppendRecord

/-- `JSON.parse(decryptFromPeer(sharedKeyWith(senderKey), payload))`, `none` when it throws. -/
abbrev Decrypt := String → EncryptedPayload → Option JsValue

inductive AppendEvent where
  /-- Any event at the node other than a private message. -/
  | box (event : BoxEvent)
  | keyLearned (nodeId key : String)
  | keyForgotten (nodeId : String)
  /-- A PRIVATE_MESSAGE for this node arrives. -/
  | privateMessage (packetId : String) (message : SealedMessage)
  /-- A reader asks for the appends. -/
  | listed (now : ℤ)

/-- `list()`: what has expired leaves the registry. -/
def NodeAppends.list (a : NodeAppends) (now : ℤ) : NodeAppends :=
  { a with items := a.items.filter fun _ append => ¬append.expiresAt ≤ now }

namespace AppendNode

/-- What the message says, if its sender is known and it decrypts. -/
def opened? (decrypt : Decrypt) (s : AppendNode) (message : SealedMessage) : Option JsValue :=
  (s.keys.get? message.source).bind fun key => decrypt key message.payload

/-- The registry takes a new append from this payload. -/
def takesAppend (s : AppendNode) (senderId packetId : String) (payload : JsValue) : Bool :=
  (Box.extractNodeAppendPayload payload packetId senderId).isSome &&
    meetsTrustLevel (s.box.trust.get senderId) s.box.minTrustForNodeAppend &&
    !s.box.nodeAppends.items.has packetId

def handlePrivateMessage (decrypt : Decrypt) (s : AppendNode) (packetId : String)
    (message : SealedMessage) : AppendNode :=
  match s.opened? decrypt message with
  | none => s
  | some payload =>
    { s with
      box := s.box.handlePrivateMessage message.source packetId payload
      recorded :=
        if s.takesAppend message.source packetId payload then s.recorded ++ [⟨packetId, message⟩]
        else s.recorded }

def step (p : Platform) (decrypt : Decrypt) (s : AppendNode) : AppendEvent → Option AppendNode
  | .box (.privateMessage ..) => none
  | .box event => some { s with box := s.box.step p event }
  | .keyLearned nodeId key => some { s with keys := s.keys.set nodeId key }
  | .keyForgotten nodeId => some { s with keys := s.keys.delete nodeId }
  | .privateMessage packetId message => some (s.handlePrivateMessage decrypt packetId message)
  | .listed now => some { s with box := { s.box with nodeAppends := s.box.nodeAppends.list now } }

def system (p : Platform) (decrypt : Decrypt) : System AppendNode AppendEvent where
  Init s := ∃ nodeId o, s = ⟨Box.create nodeId o, .empty, []⟩
  step := step p decrypt

/-- The entries of the registry that came from a message. -/
def entriesFor (s : AppendNode) (message : SealedMessage) : List String :=
  s.box.nodeAppends.items.keys.filter fun id =>
    s.recorded.any fun r => r.packetId = id ∧ r.message = message

/-- A copy of an append that was recorded comes in the packet id it is held under. -/
def replaysHeld (s : AppendNode) : AppendEvent → Bool
  | .privateMessage packetId message =>
    s.recorded.all fun r =>
      r.message = message → r.packetId = packetId ∧ s.box.nodeAppends.items.has packetId = true
  | _ => true

variable {p : Platform} {decrypt : Decrypt} {s s' : AppendNode}

/-- A message is recorded only when its packet id is not held. -/
theorem recorded_handlePrivateMessage (decrypt : Decrypt) (packetId : String) (message : SealedMessage) :
    (s.handlePrivateMessage decrypt packetId message).recorded = s.recorded ∨
      (s.box.nodeAppends.items.has packetId = false ∧
        (s.handlePrivateMessage decrypt packetId message).recorded =
          s.recorded ++ [⟨packetId, message⟩]) := by
  unfold handlePrivateMessage
  cases s.opened? decrypt message with
  | none => exact .inl rfl
  | some payload =>
    dsimp only
    split_ifs with htakes
    · right
      simp only [takesAppend, Bool.and_eq_true, Bool.not_eq_true'] at htakes
      exact ⟨htakes.2, rfl⟩
    · exact .inl rfl

/-- Only a private message is recorded, and a replay that is held is not. -/
theorem nodup_recorded_step {event : AppendEvent}
    (h : (s.recorded.map AppendRecord.message).Nodup) (hcond : s.replaysHeld event = true)
    (hstep : s.step p decrypt event = some s') : (s'.recorded.map AppendRecord.message).Nodup := by
  cases event with
  | box event =>
    have hsame : s'.recorded = s.recorded := by
      cases event with
      | privateMessage senderId packetId payload => cases hstep
      | _ => exact Option.some.inj hstep ▸ rfl
    rw [hsame]
    exact h
  | privateMessage packetId message =>
    obtain rfl := Option.some.inj hstep
    rcases recorded_handlePrivateMessage decrypt packetId message with hsame | ⟨hnew, hlog⟩
    · rw [hsame]
      exact h
    · rw [hlog, List.map_append, List.map_cons, List.map_nil]
      apply h.append (List.nodup_singleton _)
      rw [List.disjoint_singleton]
      intro hmem
      obtain ⟨r, hr, hmessage⟩ := List.mem_map.mp hmem
      have hheld : r.message = message → r.packetId = packetId ∧
          s.box.nodeAppends.items.has packetId = true := by
        simpa only [decide_eq_true_eq] using List.all_eq_true.mp hcond r hr
      rw [(hheld hmessage).2] at hnew
      cases hnew
  | keyLearned nodeId key =>
    obtain rfl := Option.some.inj hstep
    exact h
  | keyForgotten nodeId =>
    obtain rfl := Option.some.inj hstep
    exact h
  | listed now =>
    obtain rfl := Option.some.inj hstep
    exact h

theorem nodup_recorded
    (h : (system p decrypt).ReachableUnder (fun s event => s.replaysHeld event = true) s) :
    (s.recorded.map AppendRecord.message).Nodup := by
  apply h.invariant (I := fun s => (s.recorded.map AppendRecord.message).Nodup)
  · rintro s ⟨nodeId, o, rfl⟩
    exact List.nodup_nil
  · intro s event s' hs hcond hstep
    exact nodup_recorded_step hs hcond hstep

/-- A hazard notice, and the encrypted payload that says it. -/
def noticePayload : EncryptedPayload := ⟨"01", "02", "03"⟩

def notice : JsValue :=
  .obj [
    ("type", .str "node-append"),
    ("text", .str "bridge out"),
    ("kind", .str "hazard"),
    ("timestamp", .num (.finite 1)),
    ("expiresAt", .num (.finite 1000))]

/-- Decryption of the notice under the key of its author. -/
def noticeDecrypt : Decrypt := fun key payload =>
  if key = "key" ∧ payload = noticePayload then some notice else none

/-- The author is known and verified; its notice arrives, and once more under `packetId`. -/
def noticeRun (packetId : String) : List AppendEvent :=
  [ .box (.setTrust "author" .verified), .keyLearned "author" "key",
    .privateMessage "u1" ⟨"author", noticePayload⟩, .privateMessage packetId ⟨"author", noticePayload⟩ ]

end AppendNode
end Arald
