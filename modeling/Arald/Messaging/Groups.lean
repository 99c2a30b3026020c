import Arald.Foundations.Runs
import Arald.Ingest.Payloads
import Arald.Store.BoundedFifoMap

/-!
# Group messages

`groups.ts` with the three ways into it: a group is created or joined, a message
of this node's own is sent, or a GROUP_MESSAGE arrives from anywhere. A message
is known by the text of its signature, while the signature is checked as the
bytes that text decodes to.
-/

namespace Arald

open Foundations

/-- What a group member needs of its runtime. -/
structure GroupRuntime where
  /-- `Buffer.from(JSON.stringify(value))`. -/
  stringify : JsValue → Buffer
  /-- `Identity.sign` of this node. -/
  sign : Buffer → Buffer
  /-- `Identity.verifyWithNodeId`, false when it throws. -/
  verifyWithNodeId : String → Buffer → Buffer → Bool
  /-- `JSON.parse(decryptFromPeer(groupKey, payload))`, `none` when it throws. -/
  decryptFromPeer : Buffer → EncryptedPayload → Option JsValue

/-- The signer has one valid signature for each message. -/
def GroupRuntime.OneSignature (r : GroupRuntime) (nodeId : String) : Prop :=
  ∀ data signature signature', r.verifyWithNodeId nodeId data signature = true →
    r.verifyWithNodeId nodeId data signature' = true → signature = signature'

structure GroupInfo where
  groupId : String
  name : String
  key : Buffer
  members : List String
  createdBy : String
  createdAt : ℚ

structure GroupMessage where
  groupId : String
  senderId : String
  text : String
  timestamp : ℚ
  messageId : String

structure GroupMessagePacketPayload extends EncryptedPayload where
  groupId : String
  senderId : String
  signature : String
  deriving DecidableEq

/-- The fields that are signed. -/
structure SignedGroupFields extends EncryptedPayload where
  groupId : String
  senderId : String

def GroupMessagePacketPayload.signedFields (m : GroupMessagePacketPayload) : SignedGroupFields :=
  ⟨m.toEncryptedPayload, m.groupId, m.senderId⟩

def isLowerHexDigit (c : Char) : Bool := ('0' ≤ c ∧ c ≤ '9') ∨ ('a' ≤ c ∧ c ≤ 'f')

/-- `GROUP_ID_PATTERN`: 32 lower-case hexadecimal digits. -/
def validGroupId? (v : JsValue) : Option String :=
  v.string?.filter fun s => s.toList.length = 32 ∧ s.toList.all isLowerHexDigit = true

def groupMessageSigningPayload (r : GroupRuntime) (fields : SignedGroupFields) : Buffer :=
  r.stringify (.obj [
    ("groupId", .str fields.groupId),
    ("senderId", .str fields.senderId),
    ("nonce", .str fields.nonce),
    ("ciphertext", .str fields.ciphertext),
    ("authTag", .str fields.authTag)])

def verifyGroupMessage (r : GroupRuntime) (payload : JsValue) : Option GroupMessagePacketPayload := do
  guard payload.isObject
  let groupId ← validGroupId? (payload.prop "groupId")
  let senderId ← nonEmpty? (payload.prop "senderId")
  let nonce ← (payload.prop "nonce").string?
  let ciphertext ← (payload.prop "ciphertext").string?
  let authTag ← (payload.prop "authTag").string?
  let signature ← (payload.prop "signature").string?
  let fields : SignedGroupFields := { nonce, ciphertext, authTag, groupId, senderId }
  guard (r.verifyWithNodeId senderId (groupMessageSigningPayload r fields) (fromHex signature.toList))
  return { nonce, ciphertext, authTag, groupId, senderId, signature }

/-- `encrypted` is what `encryptForPeer` made of the plaintext under a fresh nonce. -/
def signGroupMessage (r : GroupRuntime) (nodeId groupId : String) (encrypted : EncryptedPayload) :
    GroupMessagePacketPayload :=
  { encrypted with
    groupId := groupId
    senderId := nodeId
    signature := toHex (r.sign (groupMessageSigningPayload r ⟨encrypted, groupId, nodeId⟩)) }

structure GroupMessagePlaintext where
  text : String
  timestamp : ℚ

def decryptGroupMessage (r : GroupRuntime) (m : GroupMessagePacketPayload) (groupKey : Buffer) :
    Option GroupMessagePlaintext := do
  let decrypted ← r.decryptFromPeer groupKey m.toEncryptedPayload
  guard decrypted.isObject
  let text ← boundedText? maxMessageTextLength (decrypted.prop "text")
  let timestamp ← (decrypted.prop "timestamp").finite?
  return { text, timestamp }

/-! ### The groups of a node -/

structure GroupEntry where
  info : GroupInfo
  messages : List GroupMessage

structure Groups where
  groups : BoundedFifoMap String GroupEntry
  maxMessagesPerGroup : WithTop ℤ

/-- `while (array.length > maxLength) array.shift()`. -/
def shiftWhileOver {α : Type} (maxLength : WithTop ℤ) : List α → List α
  | [] => []
  | x :: rest =>
    if maxLength < (((x :: rest).length : ℤ) : WithTop ℤ) then shiftWhileOver maxLength rest
    else x :: rest

def pushBounded {α : Type} (array : List α) (item : α) (maxLength : WithTop ℤ) : List α :=
  if maxLength ≤ 0 then array else shiftWhileOver maxLength (array ++ [item])

/-- A positive bound makes room from the front and keeps the new item. -/
theorem pushBounded_eq {α : Type} (array : List α) (item : α) {maxLength : WithTop ℤ}
    (hpos : 0 < maxLength) :
    ∃ k ≤ array.length, pushBounded array item maxLength = array.drop k ++ [item] ∧
      (((array.length - k + 1 : ℕ) : ℤ) : WithTop ℤ) ≤ maxLength := by
  rw [pushBounded, if_neg (not_le.mpr hpos)]
  induction array with
  | nil =>
    have hone : ((1 : ℤ) : WithTop ℤ) ≤ maxLength := by
      cases maxLength with
      | top => exact le_top
      | coe n =>
        have hn : 0 < n := WithTop.coe_lt_coe.mp hpos
        exact WithTop.coe_le_coe.mpr (by omega)
    refine ⟨0, le_rfl, ?_, by simpa using hone⟩
    rw [List.nil_append, shiftWhileOver, if_neg]
    · rfl
    · simpa using hone
  | cons x rest ih =>
    rw [List.cons_append, shiftWhileOver]
    split_ifs with hover
    · obtain ⟨k, hk, heq, hle⟩ := ih
      refine ⟨k + 1, by simpa using hk, by simpa using heq, ?_⟩
      simpa using hle
    · refine ⟨0, by simp, rfl, ?_⟩
      simpa using hover

namespace Groups

def addGroup (g : Groups) (trustRank : String → ℤ) (info : GroupInfo) : Groups :=
  if g.groups.has info.groupId then g
  else
    let score : BoundedFifoMap.EvictionScore String GroupEntry := fun _ e =>
      (trustRank e.info.createdBy : WithTop ℤ)
    { g with groups := g.groups.set (some score) info.groupId ⟨info, []⟩ }

def getGroup (g : Groups) (groupId : String) : Option GroupInfo :=
  (g.groups.get? groupId).map GroupEntry.info

/-- Append a message to its group's history, unless its id is there already. -/
def recordMessage (g : Groups) (message : GroupMessage) : Groups :=
  match g.groups.get? message.groupId with
  | none => g
  | some entry =>
    if entry.messages.any fun m => m.messageId = message.messageId then g
    else
      let messages := pushBounded entry.messages message g.maxMessagesPerGroup
      { g with groups := g.groups.set none message.groupId { entry with messages := messages } }

def getMessages (g : Groups) (groupId : String) : List GroupMessage :=
  ((g.groups.get? groupId).map GroupEntry.messages).getD []

/-- A new group has no history; joining one leaves the other histories alone,
except that of a group evicted for it. -/
theorem getMessages_addGroup (g : Groups) (trustRank : String → ℤ) (info : GroupInfo)
    (groupId : String) :
    (g.addGroup trustRank info).getMessages groupId = g.getMessages groupId ∨
      (g.addGroup trustRank info).getMessages groupId = [] := by
  unfold addGroup
  split_ifs with hhas
  · exact .inl rfl
  · dsimp only
    simp only [getMessages]
    cases hentry : BoundedFifoMap.get? (g.groups.set _ info.groupId ⟨info, []⟩) groupId with
    | none => exact .inr rfl
    | some entry =>
      rcases BoundedFifoMap.get?_of_get?_set hentry with ⟨-, rfl⟩ | hold
      · exact .inr rfl
      · exact .inl (by rw [hold])

/-- What `recordMessage` can do to a history: nothing, or drop messages from its
front and end it with the new one. -/
theorem getMessages_recordMessage (g : Groups) (message : GroupMessage) (groupId : String) :
    (g.recordMessage message).getMessages groupId = g.getMessages groupId ∨
      (groupId = message.groupId ∧
        (∀ m ∈ g.getMessages groupId, m.messageId ≠ message.messageId) ∧
        ∃ k ≤ (g.getMessages groupId).length,
          (g.recordMessage message).getMessages groupId =
            (g.getMessages groupId).drop k ++ [message] ∧
          ((((g.getMessages groupId).length - k + 1 : ℕ) : ℤ) : WithTop ℤ) ≤
            g.maxMessagesPerGroup) := by
  unfold recordMessage
  cases hentry : g.groups.get? message.groupId with
  | none => exact .inl rfl
  | some entry =>
    dsimp only
    split_ifs with hknown
    · exact .inl rfl
    have hpos := BoundedFifoMap.maxSize_pos_of_get? hentry
    have hmem : message.groupId ∈ g.groups.keys := by
      by_contra hno
      simp [BoundedFifoMap.get?_eq_none.mpr hno] at hentry
    by_cases hid : groupId = message.groupId
    · subst hid
      have hmessages : g.getMessages message.groupId = entry.messages := by
        simp [getMessages, hentry]
      simp only [hmessages]
      simp only [getMessages, BoundedFifoMap.get?_set_self none _ _ hpos, Option.map_some,
        Option.getD_some]
      by_cases hmax : g.maxMessagesPerGroup ≤ 0
      · exact .inl (by rw [pushBounded, if_pos hmax])
      · obtain ⟨k, hk, heq, hle⟩ := pushBounded_eq entry.messages message (not_le.mp hmax)
        exact .inr ⟨trivial, by simpa using hknown, k, hk, heq, hle⟩
    · left
      simp only [getMessages]
      rw [BoundedFifoMap.get?_set_of_room hpos (.inl hmem), if_neg hid]

end Groups

/-! ### The node -/

structure GroupNode where
  nodeId : String
  groups : Groups

inductive GroupEvent where
  /-- A group is created, or joined through an invite. -/
  | groupAdded (trustRank : String → ℤ) (info : GroupInfo)
  /-- `sendGroupMessage`, with the encryption of the plaintext. -/
  | sent (groupId text : String) (now : ℚ) (encrypted : EncryptedPayload)
  /-- A GROUP_MESSAGE arrives with this payload. -/
  | received (payload : JsValue)

namespace GroupNode

def sendGroupMessage (r : GroupRuntime) (s : GroupNode) (groupId text : String) (now : ℚ)
    (encrypted : EncryptedPayload) : Except String GroupNode :=
  match s.groups.getGroup groupId with
  | none => .error s!"cannot send to group {groupId}: not a known group"
  | some _ =>
    if text = "" ∨ maxMessageTextLength < utf16Length text then
      .error s!"group message text must be 1-{maxMessageTextLength} characters"
    else
      let payload := signGroupMessage r s.nodeId groupId encrypted
      .ok { s with groups := s.groups.recordMessage
                     ⟨groupId, s.nodeId, text, now, payload.signature⟩ }

/-- The message a payload amounts to, if this node is a member of its group. -/
def acceptedMessage (r : GroupRuntime) (s : GroupNode) (payload : JsValue) :
    Option GroupMessage := do
  let verified ← verifyGroupMessage r payload
  let info ← s.groups.getGroup verified.groupId
  let plaintext ← decryptGroupMessage r verified info.key
  return {
    groupId := verified.groupId
    senderId := verified.senderId
    text := plaintext.text
    timestamp := plaintext.timestamp
    messageId := verified.signature }

def handleGroupMessage (r : GroupRuntime) (s : GroupNode) (payload : JsValue) : GroupNode :=
  match s.acceptedMessage r payload with
  | none => s
  | some message => { s with groups := s.groups.recordMessage message }

def step (r : GroupRuntime) (s : GroupNode) : GroupEvent → Option GroupNode
  | .groupAdded trustRank info => some { s with groups := s.groups.addGroup trustRank info }
  | .sent groupId text now encrypted =>
    match s.sendGroupMessage r groupId text now encrypted with
    | .ok s' => some s'
    | .error _ => some s
  | .received payload => some (s.handleGroupMessage r payload)

def create (nodeId : String) (maxGroups maxMessagesPerGroup : WithTop ℤ) : GroupNode where
  nodeId := nodeId
  groups := ⟨BoundedFifoMap.empty maxGroups, maxMessagesPerGroup⟩

def system (r : GroupRuntime) : System GroupNode GroupEvent where
  Init s := ∃ nodeId maxGroups maxMessagesPerGroup,
    s = create nodeId maxGroups maxMessagesPerGroup
  step := step r

/-! ### One message for each signature -/

/-- A message that stays in the history beside the new one spells the same
signature bytes otherwise. -/
def respelled (g : Groups) (groupId signature : String) : Bool :=
  let history := g.getMessages groupId
  history.zipIdx.any fun (m, i) =>
    (((history.length - i : ℕ) : ℤ) : WithTop ℤ) < g.maxMessagesPerGroup ∧
      fromHex m.messageId.toList = fromHex signature.toList ∧ m.messageId ≠ signature

/-- The message of the event, if it has one, spells its signature as the history does. -/
def keepsSpelling (r : GroupRuntime) (s : GroupNode) : GroupEvent → Bool
  | .groupAdded .. => true
  | .sent groupId _ _ encrypted =>
    !respelled s.groups groupId (signGroupMessage r s.nodeId groupId encrypted).signature
  | .received payload =>
    (s.acceptedMessage r payload).all fun message =>
      !respelled s.groups message.groupId message.messageId

/-- The bytes that the id of a message stands for. -/
def signatureBytes (message : GroupMessage) : Buffer := fromHex message.messageId.toList

/-- No two messages of a history have the same signature. -/
def DistinctSignatures (g : Groups) : Prop :=
  ∀ groupId, ((g.getMessages groupId).map signatureBytes).Nodup

variable {r : GroupRuntime} {s s' : GroupNode}

theorem DistinctSignatures.addGroup {g : Groups} (h : DistinctSignatures g)
    (trustRank : String → ℤ) (info : GroupInfo) : DistinctSignatures (g.addGroup trustRank info) := by
  intro groupId
  rcases g.getMessages_addGroup trustRank info groupId with hsame | hnew
  · rw [hsame]
    exact h groupId
  · rw [hnew]
    exact List.nodup_nil

theorem DistinctSignatures.recordMessage {g : Groups} (h : DistinctSignatures g)
    {message : GroupMessage} (hspelling : respelled g message.groupId message.messageId = false) :
    DistinctSignatures (g.recordMessage message) := by
  intro groupId
  rcases g.getMessages_recordMessage message groupId with hsame | ⟨rfl, hnew, k, hk, heq, hle⟩
  · rw [hsame]
    exact h groupId
  · rw [heq, List.map_append, List.map_cons, List.map_nil]
    refine ((h _).sublist ((List.drop_sublist k _).map _)).append (List.nodup_singleton _) ?_
    rw [List.disjoint_singleton]
    intro hmem
    obtain ⟨m, hm, hbytes⟩ := List.mem_map.mp hmem
    -- the message is old, stays, and decodes to the bytes of the new one
    obtain ⟨j, hj, rfl⟩ := List.getElem_of_mem hm
    rw [List.getElem_drop] at hbytes hm
    have hlt : k + j < (g.getMessages message.groupId).length := by
      rw [List.length_drop] at hj
      omega
    have hyes : respelled g message.groupId message.messageId = true := by
      refine List.any_eq_true.mpr ⟨((g.getMessages message.groupId)[k + j], k + j), ?_, ?_⟩
      · exact List.mk_mem_zipIdx_iff_getElem?.mpr (List.getElem?_eq_getElem hlt)
      · refine decide_eq_true ⟨lt_of_lt_of_le ?_ hle, hbytes, hnew _ (List.getElem_mem hlt)⟩
        exact WithTop.coe_lt_coe.mpr (by omega)
    rw [hspelling] at hyes
    cases hyes

theorem DistinctSignatures.sendGroupMessage {groupId text : String} {now : ℚ}
    {encrypted : EncryptedPayload} (h : DistinctSignatures s.groups)
    (hspelling : respelled s.groups groupId
      (signGroupMessage r s.nodeId groupId encrypted).signature = false)
    (hsent : s.sendGroupMessage r groupId text now encrypted = .ok s') :
    DistinctSignatures s'.groups := by
  unfold GroupNode.sendGroupMessage at hsent
  cases hgroup : s.groups.getGroup groupId with
  | none => simp [hgroup] at hsent
  | some info =>
    simp only [hgroup] at hsent
    split_ifs at hsent
    obtain rfl := Except.ok.inj hsent
    exact h.recordMessage hspelling

theorem DistinctSignatures.handleGroupMessage {payload : JsValue}
    (h : DistinctSignatures s.groups) (hspelling : s.keepsSpelling r (.received payload) = true) :
    DistinctSignatures (s.handleGroupMessage r payload).groups := by
  unfold GroupNode.handleGroupMessage
  cases hmessage : s.acceptedMessage r payload with
  | none => exact h
  | some message =>
    apply h.recordMessage
    simpa [keepsSpelling, hmessage] using hspelling

theorem DistinctSignatures.step {event : GroupEvent} (h : DistinctSignatures s.groups)
    (hspelling : s.keepsSpelling r event = true) (hstep : s.step r event = some s') :
    DistinctSignatures s'.groups := by
  cases event with
  | groupAdded trustRank info =>
    obtain rfl := Option.some.inj hstep
    exact h.addGroup trustRank info
  | sent groupId text now encrypted =>
    rw [GroupNode.step] at hstep
    cases hsent : s.sendGroupMessage r groupId text now encrypted with
    | error message =>
      simp only [hsent] at hstep
      obtain rfl := Option.some.inj hstep
      exact h
    | ok t =>
      simp only [hsent] at hstep
      obtain rfl := Option.some.inj hstep
      exact h.sendGroupMessage (by simpa [keepsSpelling] using hspelling) hsent
  | received payload =>
    obtain rfl := Option.some.inj hstep
    exact h.handleGroupMessage hspelling

theorem distinctSignatures
    (h : (system r).ReachableUnder (fun s event => s.keepsSpelling r event = true) s) :
    DistinctSignatures s.groups := by
  apply h.invariant (I := fun s => DistinctSignatures s.groups)
  · rintro s ⟨nodeId, maxGroups, maxMessagesPerGroup, rfl⟩ groupId
    exact List.nodup_nil
  · intro s event s' hs hspelling hstep
    exact hs.step hspelling hstep

/-- What a verified payload says about its signature. -/
theorem verify_of_verifyGroupMessage {payload : JsValue} {m : GroupMessagePacketPayload}
    (h : verifyGroupMessage r payload = some m) :
    r.verifyWithNodeId m.senderId (groupMessageSigningPayload r m.signedFields)
      (fromHex m.signature.toList) = true := by
  simp only [verifyGroupMessage, Option.bind_eq_bind, Option.bind_eq_some_iff,
    Option.pure_def, Option.some.injEq, Option.guard_eq_some'] at h
  obtain ⟨-, -, groupId, -, senderId, -, nonce, -, ciphertext, -, authTag, -, signature, -, -,
    hverify, rfl⟩ := h
  exact hverify

/-- As long as no accepted message respells a signature of its history, two verified
payloads with equal signed fields have at most one message in the history. -/
theorem verified_recorded_once
    (h : (system r).ReachableUnder (fun s event => s.keepsSpelling r event = true) s)
    {payload payload' : JsValue} {m m' : GroupMessagePacketPayload}
    (hm : verifyGroupMessage r payload = some m) (hm' : verifyGroupMessage r payload' = some m')
    (hfields : m.signedFields = m'.signedFields) (hone : r.OneSignature m.senderId) :
    ((s.groups.getMessages m.groupId).filter fun x =>
      x.messageId = m.signature ∨ x.messageId = m'.signature).length ≤ 1 := by
  have hbytes : fromHex m'.signature.toList = fromHex m.signature.toList := by
    have hverify' := verify_of_verifyGroupMessage hm'
    have hsender : m'.senderId = m.senderId := congrArg SignedGroupFields.senderId hfields.symm
    rw [← hfields, hsender] at hverify'
    exact hone _ _ _ hverify' (verify_of_verifyGroupMessage hm)
  have hinj := List.inj_on_of_nodup_map (distinctSignatures h m.groupId)
  apply length_le_one_of_nodup ((distinctSignatures h m.groupId).of_map.filter _)
  have hfrom : ∀ x ∈ (s.groups.getMessages m.groupId).filter fun x =>
      x.messageId = m.signature ∨ x.messageId = m'.signature,
      x ∈ s.groups.getMessages m.groupId ∧ signatureBytes x = fromHex m.signature.toList := by
    intro x hx
    obtain ⟨hmem, hid⟩ := List.mem_filter.mp hx
    refine ⟨hmem, ?_⟩
    rcases of_decide_eq_true hid with hid | hid
    · rw [signatureBytes, hid]
    · rw [signatureBytes, hid, hbytes]
  intro x hx x' hx'
  obtain ⟨hmem, hsig⟩ := hfrom x hx
  obtain ⟨hmem', hsig'⟩ := hfrom x' hx'
  exact hinj hmem hmem' (hsig.trans hsig'.symm)

/-! ### A signature in two spellings -/

/-- One signer, one message and its signature of 64 bytes. -/
def sampleRuntime : GroupRuntime where
  stringify _ := []
  sign _ := List.replicate 64 0xab
  verifyWithNodeId nodeId data signature :=
    nodeId = "member" ∧ data = [] ∧ signature = List.replicate 64 0xab
  decryptFromPeer key payload :=
    if key = List.replicate 32 1 ∧ payload = ⟨"01", "02", "03"⟩ then
      some (.obj [("text", .str "hello"), ("timestamp", .num (.finite 1))])
    else none

def sampleGroup : GroupInfo :=
  { groupId := "0123456789abcdef0123456789abcdef"
    name := "climbers"
    key := List.replicate 32 1
    members := ["member"]
    createdBy := "creator"
    createdAt := 0 }

def samplePayload (signature : String) : JsValue :=
  .obj [
    ("groupId", .str sampleGroup.groupId),
    ("senderId", .str "member"),
    ("nonce", .str "01"),
    ("ciphertext", .str "02"),
    ("authTag", .str "03"),
    ("signature", .str signature)]

/-- The signature as its signer spells it, and in capitals. -/
def sampleSignature : String := toHex (List.replicate 64 0xab)

def capitalSignature : String := String.ofList (sampleSignature.toList.map Char.toUpper)

def sampleFields (signature : String) : GroupMessagePacketPayload :=
  { nonce := "01"
    ciphertext := "02"
    authTag := "03"
    groupId := sampleGroup.groupId
    senderId := "member"
    signature := signature }

theorem signedFields_sampleFields (signature signature' : String) :
    (sampleFields signature).signedFields = (sampleFields signature').signedFields := rfl

theorem oneSignature_sampleRuntime : sampleRuntime.OneSignature "member" := by
  intro data signature signature' h h'
  have hsig := (of_decide_eq_true h).2.2
  have hsig' := (of_decide_eq_true h').2.2
  rw [hsig, hsig']

theorem verify_samplePayload :
    verifyGroupMessage sampleRuntime (samplePayload sampleSignature) =
        some (sampleFields sampleSignature) ∧
      verifyGroupMessage sampleRuntime (samplePayload capitalSignature) =
        some (sampleFields capitalSignature) := by
  decide +kernel

/-- The group is joined, and the payload arrives in each of the spellings. -/
def sampleEvents (signatures : List String) : List GroupEvent :=
  .groupAdded (fun _ => 0) sampleGroup :: signatures.map fun s => .received (samplePayload s)

theorem verified_recorded_once_replayed :
    ∃ s, (system sampleRuntime).runUnder (keepsSpelling sampleRuntime) (create "node" 128 500)
        (sampleEvents [sampleSignature, sampleSignature]) = some s ∧
      (s.groups.getMessages sampleGroup.groupId).length = 1 ∧
      ((s.groups.getMessages sampleGroup.groupId).filter fun x =>
        x.messageId = sampleSignature ∨ x.messageId = capitalSignature).length ≤ 1 := by
  have hrun : ((system sampleRuntime).runUnder (keepsSpelling sampleRuntime)
      (create "node" 128 500) (sampleEvents [sampleSignature, sampleSignature])).map
        (fun s => (s.groups.getMessages sampleGroup.groupId).length) = some 1 := by
    decide +kernel
  obtain ⟨s, hs, hlength⟩ := Option.map_eq_some_iff.mp hrun
  have honce := verified_recorded_once (System.reachableUnder_of_runUnder ⟨_, _, _, rfl⟩ hs)
    verify_samplePayload.1 verify_samplePayload.2 (signedFields_sampleFields _ _)
    oneSignature_sampleRuntime
  exact ⟨s, hs, hlength, honce⟩

/-- The payload with its signature in capitals is a second message. -/
theorem verified_recorded_twice :
    ¬∀ (r : GroupRuntime) (s : GroupNode), (system r).Reachable s →
      ∀ payload payload' m m', verifyGroupMessage r payload = some m →
        verifyGroupMessage r payload' = some m' → m.signedFields = m'.signedFields →
        r.OneSignature m.senderId →
        ((s.groups.getMessages m.groupId).filter fun x =>
          x.messageId = m.signature ∨ x.messageId = m'.signature).length ≤ 1 := by
  intro hclaim
  have hrun : ((system sampleRuntime).run (create "node" 128 500)
      (sampleEvents [sampleSignature, capitalSignature])).map
        (fun s => ((s.groups.getMessages sampleGroup.groupId).filter fun x =>
          x.messageId = sampleSignature ∨ x.messageId = capitalSignature).length) = some 2 := by
    decide +kernel
  obtain ⟨s, hs, hlength⟩ := Option.map_eq_some_iff.mp hrun
  have hle := hclaim sampleRuntime s (System.reachable_of_run ⟨_, _, _, rfl⟩ hs) _ _ _ _
    verify_samplePayload.1 verify_samplePayload.2 (signedFields_sampleFields _ _)
    oneSignature_sampleRuntime
  rw [show (sampleFields sampleSignature).groupId = sampleGroup.groupId from rfl,
    show (sampleFields sampleSignature).signature = sampleSignature from rfl,
    show (sampleFields capitalSignature).signature = capitalSignature from rfl, hlength] at hle
  omega

end GroupNode
end Arald
