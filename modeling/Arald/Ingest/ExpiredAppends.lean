import Arald.Ingest.Frames

/-!
# Node appends that arrive expired

An append comes in a private message over the mesh, or signed over HTTP. Over HTTP
it is refused when its lifetime is over. The mesh path does not look at the clock:
the registry takes the expired append, and a full one gives up a live append for it.
-/

namespace Arald

open Foundations

/-- How an append reaches the node. -/
inductive AppendArrival where
  | mesh (senderId packetId : String) (payload : JsValue)
  | http (submission : JsValue)

theorem NodeAppends.record_of_has {a : NodeAppends} {trustRank : String → ℤ} {append : NodeAppend}
    (h : a.items.has append.appendId = true) : a.record trustRank append = a := by
  rw [record, if_pos h]

/-- A new append is in the registry afterwards, if the registry holds anything at all. -/
theorem NodeAppends.mem_record {a : NodeAppends} (append : NodeAppend) (trustRank : String → ℤ)
    (hpos : 0 < a.items.maxSize) : append.appendId ∈ (a.record trustRank append).items.keys := by
  rw [record]
  split_ifs with hhas
  · exact BoundedFifoMap.has_iff.mp hhas
  · apply BoundedFifoMap.has_iff.mp
    have hself := BoundedFifoMap.get?_set_self (m := a.items)
      (some fun _ e => (trustRank e.author : WithTop ℤ)) append.appendId append hpos
    exact Option.isSome_iff_exists.mpr ⟨append, hself⟩

theorem NodeAppends.record_eq_self_iff {a : NodeAppends} (trustRank : String → ℤ) {append : NodeAppend} :
    a.record trustRank append = a ↔ a.items.has append.appendId = true ∨ a.items.maxSize ≤ 0 := by
  constructor
  · intro hsame
    by_contra hno
    obtain ⟨hnew, hpos⟩ := not_or.mp hno
    have hmem := a.mem_record append trustRank (not_le.mp hpos)
    rw [hsame] at hmem
    exact hnew (BoundedFifoMap.has_iff.mpr hmem)
  · rintro (hhas | hmax)
    · exact record_of_has hhas
    · rw [record]
      split_ifs
      · rfl
      · dsimp only
        rw [BoundedFifoMap.set, dif_pos hmax]

namespace Box

variable {p : Platform} {b : Box} {t : Readings}

/-- The entry that a submission asks for. -/
def submittedAppend (v : SignedNodeAppendSubmission) : NodeAppend where
  text := v.text
  label := v.label
  kind := v.kind
  timestamp := v.timestamp
  expiresAt := v.expiresAt
  appendId := v.signature
  author := v.publisherId

/-- The append that arrives, if what arrives is well formed. -/
def arriving? (p : Platform) : AppendArrival → Option NodeAppend
  | .mesh senderId packetId payload => extractNodeAppendPayload payload packetId senderId
  | .http submission => (verifySignedNodeAppendSubmission p submission).map submittedAppend

def receive (p : Platform) (b : Box) (t : Readings) : AppendArrival → Box
  | .mesh senderId packetId payload => b.handlePrivateMessage senderId packetId payload
  | .http submission => (b.ingestSignedNodeAppend p submission t).1

/-- The mesh path takes a new append from this sender into a registry with room for any. -/
def takesFromMesh (b : Box) : AppendArrival → Bool
  | .mesh senderId packetId _ =>
    meetsTrustLevel (b.trust.get senderId) b.minTrustForNodeAppend &&
      !b.nodeAppends.items.has packetId && 0 < b.nodeAppends.items.maxSize
  | .http _ => false

theorem nodeAppends_handlePrivateMessage {senderId packetId : String} {payload : JsValue} {a : NodeAppend}
    (h : extractNodeAppendPayload payload packetId senderId = some a) :
    (b.handlePrivateMessage senderId packetId payload).nodeAppends =
      if meetsTrustLevel (b.trust.get senderId) b.minTrustForNodeAppend then
        b.nodeAppends.record b.authorTrust a
      else b.nodeAppends := by
  unfold handlePrivateMessage
  obtain ⟨last, requests, hcommand⟩ := considerRelayCommand_frame
    (b := b.considerNodeAppend senderId (extractNodeAppendPayload payload packetId senderId)) senderId
    (extractRelayCommand payload)
  rw [hcommand, h]
  dsimp only [considerNodeAppend]
  cases meetsTrustLevel (b.trust.get senderId) b.minTrustForNodeAppend <;> rfl

/-- The id of an append of the mesh is that of its packet. -/
theorem appendId_of_extract {senderId packetId : String} {payload : JsValue} {a : NodeAppend}
    (h : extractNodeAppendPayload payload packetId senderId = some a) : a.appendId = packetId := by
  simp only [extractNodeAppendPayload, Option.bind_eq_bind, Option.bind_eq_some_iff, Option.pure_def,
    Option.some_inj] at h
  obtain ⟨-, -, -, -, _, -, _, -, _, -, _, -, _, -, rfl⟩ := h
  rfl

/-- Over HTTP an append whose lifetime is over changes nothing in the registry. -/
theorem nodeAppends_ingest_of_expired {submission : JsValue} {v : SignedNodeAppendSubmission}
    (hverified : verifySignedNodeAppendSubmission p submission = some v) (hexpired : v.expiresAt ≤ t.check) :
    (b.ingestSignedNodeAppend p submission t).1.nodeAppends = b.nodeAppends := by
  unfold ingestSignedNodeAppend
  split
  · next hallow =>
    obtain ⟨limiter, rfl⟩ := allowCaller_frame hallow
    rfl
  · next hallow =>
    obtain ⟨limiter, rfl⟩ := allowCaller_frame hallow
    rw [hverified]
    dsimp only
    split_ifs <;> rfl

/-- Over HTTP a live append for this node is recorded, unless its caller or the
budgets hold it up. -/
theorem nodeAppends_ingest_of_live {submission : JsValue} {v : SignedNodeAppendSubmission}
    (hverified : verifySignedNodeAppendSubmission p submission = some v)
    (htarget : v.targetNodeId = b.nodeId) (hlive : ¬v.expiresAt ≤ t.check)
    (hbudget : (b.ingestSignedNodeAppend p submission t).2 ≠ .rateLimited) :
    (b.ingestSignedNodeAppend p submission t).1.nodeAppends =
      b.nodeAppends.record b.authorTrust (submittedAppend v) := by
  unfold ingestSignedNodeAppend at hbudget ⊢
  split at hbudget
  · exact absurd rfl hbudget
  next hallow =>
    obtain ⟨limiter, rfl⟩ := allowCaller_frame hallow
    rw [hverified] at hbudget ⊢
    dsimp only at hbudget ⊢
    rw [if_neg (not_not.mpr htarget), if_neg hlive] at hbudget ⊢
    split at hbudget
    · exact absurd rfl hbudget
    next hcharge =>
      obtain ⟨window, rfl⟩ := tryConsumeHttpIngestedNodeAppendBudget_frame hcharge
      dsimp only at hbudget ⊢
      split at hbudget
      · exact absurd rfl hbudget
      next helevated =>
        split_ifs at helevated with hinfo
        · cases helevated
          rfl
        · obtain ⟨window', rfl⟩ := tryConsumeElevatedNodeAppendBudget_frame helevated
          rfl

/-- An append that has expired leaves the registry as it is, unless it comes over the
mesh and is taken from there. Of two copies that no gate of their paths holds up,
both are recorded or neither if and only if they are not expired. -/
theorem expired_append_kept_out_iff (p : Platform) (b : Box) (t : Readings) :
    (∀ arrival a, arriving? p arrival = some a →
      ((a.expiresAt ≤ t.check → (b.receive p t arrival).nodeAppends = b.nodeAppends) ↔
        (a.expiresAt ≤ t.check → b.takesFromMesh arrival = false))) ∧
    ∀ senderId packetId payload submission a v,
      arriving? p (.mesh senderId packetId payload) = some a →
      b.takesFromMesh (.mesh senderId packetId payload) = true →
      verifySignedNodeAppendSubmission p submission = some v → v.targetNodeId = b.nodeId →
      (b.ingestSignedNodeAppend p submission t).2 ≠ .rateLimited →
      b.nodeAppends.items.has v.signature = false → v.expiresAt = a.expiresAt →
        ((packetId ∈ (b.receive p t (.mesh senderId packetId payload)).nodeAppends.items.keys ↔
            v.signature ∈ (b.receive p t (.http submission)).nodeAppends.items.keys) ↔
          ¬a.expiresAt ≤ t.check) := by
  constructor
  · intro arrival a harrives
    apply imp_congr_right
    intro hexpired
    cases arrival with
    | mesh senderId packetId payload =>
      rw [receive, nodeAppends_handlePrivateMessage harrives, takesFromMesh]
      cases htrust : meetsTrustLevel (b.trust.get senderId) b.minTrustForNodeAppend with
      | false => simp
      | true =>
        rw [if_pos rfl, NodeAppends.record_eq_self_iff, appendId_of_extract harrives]
        cases b.nodeAppends.items.has packetId <;> simp
    | http submission =>
      obtain ⟨v, hverified, rfl⟩ := Option.map_eq_some_iff.mp harrives
      exact iff_of_true (nodeAppends_ingest_of_expired hverified hexpired) rfl
  · intro senderId packetId payload submission a v harrives htakes hverified htarget hbudget hnew hsame
    obtain ⟨⟨htrust, hnewPacket⟩, hroom⟩ : (meetsTrustLevel (b.trust.get senderId) b.minTrustForNodeAppend = true ∧
        b.nodeAppends.items.has packetId = false) ∧ 0 < b.nodeAppends.items.maxSize := by
      simpa [takesFromMesh] using htakes
    have hmesh : packetId ∈ (b.receive p t (.mesh senderId packetId payload)).nodeAppends.items.keys := by
      rw [receive, nodeAppends_handlePrivateMessage harrives, if_pos htrust,
        ← appendId_of_extract harrives]
      exact NodeAppends.mem_record _ _ hroom
    rw [iff_true_left hmesh, ← hsame, receive]
    by_cases hexpired : v.expiresAt ≤ t.check
    · rw [nodeAppends_ingest_of_expired hverified hexpired]
      refine iff_of_false (fun hmem => ?_) (not_not_intro hexpired)
      rw [BoundedFifoMap.has_iff.mpr hmem] at hnew
      cases hnew
    · rw [nodeAppends_ingest_of_live hverified htarget hexpired hbudget]
      exact iff_of_true (NodeAppends.mem_record _ _ hroom) hexpired

/-! ### A live append gives way -/

/-- A hazard notice as a private message carries it. -/
def hazardNotice (expiresAt : ℚ) : JsValue :=
  .obj [
    ("type", .str "node-append"),
    ("text", .str "bridge out"),
    ("kind", .str "hazard"),
    ("timestamp", .num (.finite 1)),
    ("expiresAt", .num (.finite expiresAt))]

/-- The notice before its author signs it for a node. -/
def unsignedNotice (author targetNodeId : String) (expiresAt : ℚ) : SignedNodeAppendSubmission where
  text := "bridge out"
  label := none
  kind := .hazard
  timestamp := 1
  expiresAt := expiresAt
  targetNodeId := targetNodeId
  publisherId := author
  signature := ""

def noticeSignature (p : Platform) (v : SignedNodeAppendSubmission) : String :=
  p.sign v.publisherId (nodeAppendSigningPayload p v)

def signedNotice (p : Platform) (v : SignedNodeAppendSubmission) : JsValue :=
  .obj [
    ("text", .str v.text),
    ("kind", .str v.kind.toString),
    ("timestamp", .num (.finite v.timestamp)),
    ("expiresAt", .num (.finite v.expiresAt)),
    ("targetNodeId", .str v.targetNodeId),
    ("publisherId", .str v.publisherId),
    ("signature", .str (noticeSignature p v))]

/-- A node with room for one append that trusts its author and holds a notice of it. -/
def postedRun : List BoxEvent :=
  [.setTrust "author" .verified, .privateMessage "author" "u1" (hazardNotice 1000)]

/-- Two live copies of a notice, over the mesh and over HTTP, are both recorded. -/
theorem expired_append_kept_out_live :
    let p := samplePlatform []
    let v := unsignedNotice "author" "box" 1000
    ∃ b, (system p).run (create "box" {}) postedRun = some b ∧
      (("u2" ∈ (b.receive p (.const 100) (.mesh "author" "u2" (hazardNotice 1000))).nodeAppends.items.keys ↔
          noticeSignature p v ∈
            (b.receive p (.const 100) (.http (signedNotice p v))).nodeAppends.items.keys)) := by
  intro p v
  have hrun : ((system p).run (create "box" {}) postedRun).map (fun b =>
      (b.takesFromMesh (.mesh "author" "u2" (hazardNotice 1000)), b.nodeId,
        (b.ingestSignedNodeAppend p (signedNotice p v) (.const 100)).2,
        b.nodeAppends.items.has (noticeSignature p v))) = some (true, "box", .accepted, false) := by
    decide +kernel
  obtain ⟨b, hb, hview⟩ := Option.map_eq_some_iff.mp hrun
  simp only [Prod.mk.injEq] at hview
  obtain ⟨htakes, hnode, hresult, hnew⟩ := hview
  have hmesh : (arriving? p (.mesh "author" "u2" (hazardNotice 1000))).map NodeAppend.expiresAt =
      some 1000 := by
    decide
  have hhttp : (verifySignedNodeAppendSubmission p (signedNotice p v)).map
      (fun w => (w.targetNodeId, w.signature, w.expiresAt)) = some ("box", noticeSignature p v, 1000) := by
    decide +kernel
  obtain ⟨a, ha, haExpires⟩ := Option.map_eq_some_iff.mp hmesh
  obtain ⟨w, hw, hwview⟩ := Option.map_eq_some_iff.mp hhttp
  simp only [Prod.mk.injEq] at hwview
  obtain ⟨hwtarget, hwsignature, hwExpires⟩ := hwview
  have hagree := (expired_append_kept_out_iff p b (.const 100)).2 "author" "u2" (hazardNotice 1000)
    (signedNotice p v) a w ha htakes hw (hwtarget.trans hnode.symm) (by rw [hresult]; decide)
    (by rw [hwsignature]; exact hnew) (hwExpires.trans haExpires.symm)
  rw [hwsignature, haExpires] at hagree
  exact ⟨b, hb, hagree.mpr (by decide)⟩

/-- A notice that expired long ago takes the place of the live one. -/
theorem live_append_displaced :
    ¬∀ (p : Platform) (b : Box), (system p).Reachable b → ∀ t arrival a,
      arriving? p arrival = some a → a.expiresAt ≤ t.check →
        (b.receive p t arrival).nodeAppends = b.nodeAppends := by
  intro hclaim
  have hrun : ((system (samplePlatform [])).run (create "box" { maxNodeAppends := (1 : ℤ) }) postedRun).map
      (fun b => (b.nodeAppends.items.keys, (b.receive (samplePlatform []) (.const 100)
        (.mesh "author" "u2" (hazardNotice 10))).nodeAppends.items.keys)) = some (["u1"], ["u2"]) := by
    decide
  obtain ⟨b, hb, hview⟩ := Option.map_eq_some_iff.mp hrun
  obtain ⟨hbefore, hafter⟩ := Prod.mk.inj hview
  have hsome : (arriving? (samplePlatform []) (.mesh "author" "u2" (hazardNotice 10))).map
      NodeAppend.expiresAt = some 10 := by
    decide
  obtain ⟨a, ha, hexpires⟩ := Option.map_eq_some_iff.mp hsome
  have hreach : (system (samplePlatform [])).Reachable b := System.reachable_of_run ⟨_, _, rfl⟩ hb
  have hsame := hclaim _ b hreach (.const 100) _ a ha (by rw [hexpires]; decide)
  rw [hsame, hbefore] at hafter
  exact absurd hafter (by decide)

end Box
end Arald
