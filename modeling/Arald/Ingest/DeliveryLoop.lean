import Arald.Ingest.ExternalDeliveries

/-!
# The delivery loop

`attemptExternalDeliveries` posts a snapshot of the queue, entry by entry, and
takes an entry out of the queue only once its POST has succeeded. Nothing
remembers what was delivered: a copy that arrives later is queued again.
-/

namespace Arald

open Foundations

structure DeliveryNode where
  box : Box
  /-- What the running attempt has still to post, the entry being posted first;
  `none` when `externalDeliveryAttemptInFlight` is false. -/
  attempt : Option (List QueuedExternalDelivery)
  /-- The `external-delivery:delivered` events. -/
  delivered : List QueuedExternalDelivery

inductive DeliveryEvent where
  /-- Any event at the node other than a delivery. -/
  | box (event : BoxEvent)
  /-- An EXTERNAL_DELIVERY packet for this node arrives over the mesh. -/
  | packet (packetId : String) (priority payload : JsValue) (now : ℤ)
  /-- The timer calls `attemptExternalDeliveries`. -/
  | tick (now : ℤ)
  /-- The POST under way succeeded or failed. -/
  | posted (ok : Bool)

namespace DeliveryNode

/-- The node goes on with the rest of an attempt, or ends it. -/
def attemptOf (rest : List QueuedExternalDelivery) : Option (List QueuedExternalDelivery) :=
  if rest.isEmpty then none else some rest

/-- The beginning of `attemptExternalDeliveries`, up to the first POST. -/
def attemptExternalDeliveries (s : DeliveryNode) (now : ℤ) : DeliveryNode :=
  if s.box.externalDeliveryAllowlist.isNone || s.attempt.isSome then s
  else
    let due := s.box.externalDeliveryQueue.entriesDueForAttempt now
    { s with
      box := { s.box with externalDeliveryQueue := due.1 }
      attempt := attemptOf due.2 }

/-- The answer to the POST of an entry. -/
def afterPost (s : DeliveryNode) (entry : QueuedExternalDelivery) (rest : List QueuedExternalDelivery)
    (ok : Bool) : DeliveryNode :=
  if ok then
    { box := { s.box with externalDeliveryQueue := s.box.externalDeliveryQueue.remove entry.packetId }
      attempt := attemptOf rest
      delivered := s.delivered ++ [entry] }
  else { s with attempt := attemptOf rest }

def step (p : Platform) (s : DeliveryNode) : DeliveryEvent → Option DeliveryNode
  | .box (.deliverySent _) => none
  | .box event => some { s with box := s.box.step p event }
  | .packet packetId priority payload now =>
    some { s with box := s.box.handleExternalDelivery p packetId priority payload now }
  | .tick now => some (s.attemptExternalDeliveries now)
  | .posted ok =>
    match s.attempt with
    | some (entry :: rest) => some (s.afterPost entry rest ok)
    | _ => none

def system (p : Platform) : System DeliveryNode DeliveryEvent where
  Init s := ∃ nodeId o, s = ⟨Box.create nodeId o, none, []⟩
  step := step p

/-- The entries in the queue and those that the running attempt has still to post. -/
def waiting (s : DeliveryNode) : List QueuedExternalDelivery :=
  s.box.externalDeliveryQueue.queued.values ++ s.attempt.getD []

/-- The submission was not delivered yet, and no copy waits under another id. -/
def admitsCopy (s : DeliveryNode) (x : SealedSubmission) (packetId : String) : Bool :=
  (s.delivered.all fun e => e.sealedSubmission ≠ x) &&
    s.waiting.all fun e => e.sealedSubmission = x → e.packetId = packetId

/-- Whatever submission the event brings is one that the node may take. -/
def bringsNoSecondCopy (p : Platform) (s : DeliveryNode) (event : DeliveryEvent) : Bool :=
  let read := fun payload => extractExternalDeliveryPayload payload (s.box.maxExternalDeliveryPayloadBytes * 2)
  match event with
  | .box (.ingestExternalDelivery payload _) =>
    (read payload).all fun d => s.admitsCopy d.sealedSubmission (Box.httpIngestPacketId p d)
  | .packet packetId _ payload _ =>
    (read payload).all fun d => s.admitsCopy d.sealedSubmission packetId
  | _ => true

/-! ### The invariant -/

variable {p : Platform} {s s' : DeliveryNode}

/-- Copies of one submission wait under one id, and only until it is delivered. -/
structure Once (s : DeliveryNode) : Prop where
  wellFormed : s.box.externalDeliveryQueue.WellFormed
  distinct : ((s.attempt.getD []).map QueuedExternalDelivery.packetId).Nodup
  oneId : ∀ e ∈ s.waiting, ∀ e' ∈ s.waiting, e.sealedSubmission = e'.sealedSubmission →
    e.packetId = e'.packetId
  undelivered : ∀ e ∈ s.waiting, ∀ d ∈ s.delivered, d.sealedSubmission ≠ e.sealedSubmission
  once : (s.delivered.map QueuedExternalDelivery.sealedSubmission).Nodup

theorem mem_waiting {e : QueuedExternalDelivery} :
    e ∈ s.waiting ↔ e ∈ s.box.externalDeliveryQueue.queued.values ∨ e ∈ s.attempt.getD [] :=
  List.mem_append

@[simp] theorem getD_attemptOf (rest : List QueuedExternalDelivery) : (attemptOf rest).getD [] = rest := by
  cases rest <;> rfl

/-- Fewer entries wait, and nothing was delivered. -/
theorem Once.shrink (h : s.Once) (hwf : s'.box.externalDeliveryQueue.WellFormed)
    (hdistinct : ((s'.attempt.getD []).map QueuedExternalDelivery.packetId).Nodup)
    (hsub : ∀ e ∈ s'.waiting, e ∈ s.waiting) (hdelivered : s'.delivered = s.delivered) : s'.Once where
  wellFormed := hwf
  distinct := hdistinct
  oneId e he e' he' hsame := h.oneId e (hsub e he) e' (hsub e' he') hsame
  undelivered e he d hd := h.undelivered e (hsub e he) d (hdelivered ▸ hd)
  once := by
    rw [hdelivered]
    exact h.once

/-- A copy that may be taken is queued. -/
theorem Once.enqueue (h : s.Once) (entry : QueuedExternalDelivery)
    (hadmits : s.admitsCopy entry.sealedSubmission entry.packetId = true)
    (hqueue : s'.box.externalDeliveryQueue = s.box.externalDeliveryQueue.enqueue entry)
    (hattempt : s'.attempt = s.attempt) (hdelivered : s'.delivered = s.delivered) : s'.Once := by
  obtain ⟨hnew, hold⟩ : (∀ d ∈ s.delivered, d.sealedSubmission ≠ entry.sealedSubmission) ∧
      ∀ e ∈ s.waiting, e.sealedSubmission = entry.sealedSubmission → e.packetId = entry.packetId := by
    simpa only [admitsCopy, Bool.and_eq_true, List.all_eq_true, decide_eq_true_eq] using hadmits
  have hsub : ∀ e ∈ s'.waiting, e = entry ∨ e ∈ s.waiting := by
    intro e he
    rcases mem_waiting.mp he with hmem | hmem
    · rw [hqueue] at hmem
      obtain ⟨id, hid⟩ := OrderedMap.mem_values.mp hmem
      rcases ExternalDeliveryQueue.mem_enqueue (OrderedMap.get?_eq_some.mpr hid) with hqueued | ⟨-, rfl⟩
      · exact .inr (mem_waiting.mpr (.inl (OrderedMap.mem_values.mpr ⟨id, OrderedMap.get?_eq_some.mp hqueued⟩)))
      · exact .inl rfl
    · rw [hattempt] at hmem
      exact .inr (mem_waiting.mpr (.inr hmem))
  constructor
  · rw [hqueue]
    exact h.wellFormed.enqueue entry
  · rw [hattempt]
    exact h.distinct
  · intro e he e' he' hsame
    rcases hsub e he with rfl | hmem
    · rcases hsub e' he' with rfl | hmem'
      · rfl
      · exact (hold e' hmem' hsame.symm).symm
    · rcases hsub e' he' with rfl | hmem'
      · exact hold e hmem hsame
      · exact h.oneId e hmem e' hmem' hsame
  · intro e he d hd
    rw [hdelivered] at hd
    rcases hsub e he with rfl | hmem
    · exact hnew d hd
    · exact h.undelivered e hmem d hd
  · rw [hdelivered]
    exact h.once

/-- Taking the snapshot. -/
theorem Once.attemptExternalDeliveries (h : s.Once) (now : ℤ) : (s.attemptExternalDeliveries now).Once := by
  unfold DeliveryNode.attemptExternalDeliveries
  split_ifs
  · exact h
  · apply h.shrink
    · exact h.wellFormed.entriesDueForAttempt now
    · have hids : s.box.externalDeliveryQueue.queued.values.map QueuedExternalDelivery.packetId =
          s.box.externalDeliveryQueue.queued.keys := by
        rw [OrderedMap.values, OrderedMap.keys, List.map_map]
        apply List.map_congr_left
        intro e he
        exact h.wellFormed.keyed e.1 e.2 (OrderedMap.get?_eq_some.mpr he)
      rw [getD_attemptOf]
      have hnodup := s.box.externalDeliveryQueue.queued.nodup_keys
      rw [← hids] at hnodup
      exact hnodup.sublist (List.filter_sublist.map _)
    · intro e he
      apply mem_waiting.mpr
      left
      rcases mem_waiting.mp he with hmem | hmem
      · obtain ⟨id, hid⟩ := OrderedMap.mem_values.mp hmem
        exact OrderedMap.mem_values.mpr ⟨id, (OrderedMap.mem_filter.mp hid).1⟩
      · rw [getD_attemptOf] at hmem
        exact (List.mem_filter.mp hmem).1
    · rfl

/-- A delivered entry leaves no copy behind. -/
theorem Once.afterDelivery (h : s.Once) {entry : QueuedExternalDelivery}
    {rest : List QueuedExternalDelivery} (hattempt : s.attempt = some (entry :: rest)) :
    (s.afterPost entry rest true).Once := by
  have hdistinct := h.distinct
  simp only [hattempt, Option.getD_some, List.map_cons, List.nodup_cons] at hdistinct
  have hentry : entry ∈ s.waiting := mem_waiting.mpr (.inr (by simp [hattempt]))
  have hwaiting : ∀ e ∈ (s.afterPost entry rest true).waiting,
      e ∈ s.waiting ∧ e.packetId ≠ entry.packetId := by
    intro e he
    rcases mem_waiting.mp he with hmem | hmem
    · simp only [afterPost, if_true, ExternalDeliveryQueue.remove,
        ExternalDeliveryQueue.queued_removeEntry] at hmem
      obtain ⟨id, hid⟩ := OrderedMap.mem_values.mp hmem
      obtain ⟨hin, hne⟩ := OrderedMap.mem_delete.mp hid
      have hkey := h.wellFormed.keyed id e (OrderedMap.get?_eq_some.mpr hin)
      exact ⟨mem_waiting.mpr (.inl (OrderedMap.mem_values.mpr ⟨id, hin⟩)), hkey ▸ hne⟩
    · simp only [afterPost, if_true, getD_attemptOf] at hmem
      refine ⟨mem_waiting.mpr (.inr (by simp [hattempt, hmem])), ?_⟩
      intro heq
      exact hdistinct.1 (List.mem_map.mpr ⟨e, hmem, heq⟩)
  constructor
  · exact h.wellFormed.removeEntry entry.packetId
  · simpa [afterPost] using hdistinct.2
  · intro e he e' he' hsame
    exact h.oneId e (hwaiting e he).1 e' (hwaiting e' he').1 hsame
  · intro e he d hd
    obtain ⟨hmem, hne⟩ := hwaiting e he
    rcases List.mem_append.mp hd with hold | hlast
    · exact h.undelivered e hmem d hold
    · obtain rfl := List.mem_singleton.mp hlast
      intro hsame
      exact hne (h.oneId e hmem d hentry hsame.symm)
  · simp only [afterPost, if_true, List.map_append, List.map_cons, List.map_nil]
    apply h.once.append (List.nodup_singleton _)
    rw [List.disjoint_singleton]
    intro hmem
    obtain ⟨d, hd, hsame⟩ := List.mem_map.mp hmem
    exact h.undelivered entry hentry d hd hsame

/-- The answer to a POST. -/
theorem Once.afterPost (h : s.Once) {entry : QueuedExternalDelivery} {rest : List QueuedExternalDelivery}
    (hattempt : s.attempt = some (entry :: rest)) (ok : Bool) : (s.afterPost entry rest ok).Once := by
  cases ok with
  | true => exact h.afterDelivery hattempt
  | false =>
    have hdistinct := h.distinct
    simp only [hattempt, Option.getD_some, List.map_cons, List.nodup_cons] at hdistinct
    apply Once.shrink h
    · exact h.wellFormed
    · simpa [DeliveryNode.afterPost] using hdistinct.2
    · intro e he
      rcases mem_waiting.mp he with hmem | hmem
      · exact mem_waiting.mpr (.inl hmem)
      · simp only [DeliveryNode.afterPost, Bool.false_eq_true, if_false, getD_attemptOf] at hmem
        exact mem_waiting.mpr (.inr (by simp [hattempt, hmem]))
    · rfl

/-- The events that are no submission leave the queue alone. -/
theorem queue_of_boxStep {b : Box} {event : BoxEvent}
    (hingest : ∀ payload t, event ≠ .ingestExternalDelivery payload t)
    (hsent : ∀ packetId, event ≠ .deliverySent packetId) :
    (b.step p event).externalDeliveryQueue = b.externalDeliveryQueue := by
  cases event with
  | ingestSignedContent metadata data options t =>
    obtain ⟨_, _, _, _, _, heq⟩ := Box.ingestSignedContent_frame (p := p) (b := b) (t := t) metadata data options
    simp [Box.step, heq]
  | ingestSignedNodeAppend submission t =>
    obtain ⟨_, _, _, _, heq⟩ := Box.ingestSignedNodeAppend_frame (p := p) (b := b) (t := t) submission
    simp [Box.step, heq]
  | ingestSignedRelayCommand submission t =>
    obtain ⟨_, _, _, _, heq⟩ := Box.ingestSignedRelayCommand_frame (p := p) (b := b) (t := t) submission
    simp [Box.step, heq]
  | ingestExternalDelivery payload t => exact absurd rfl (hingest payload t)
  | publishDrop request t =>
    obtain ⟨_, _, _, _, heq⟩ := Box.publishDrop_frame (p := p) (b := b) (t := t) request
    simp [Box.step, heq]
  | privateMessage senderId packetId payload =>
    obtain ⟨_, _, _, heq⟩ := Box.handlePrivateMessage_frame (b := b) senderId packetId payload
    simp [Box.step, heq]
  | catalogEntry metadata t =>
    obtain ⟨_, _, _, heq⟩ := Box.acceptCatalogEntry_frame (p := p) (b := b) (t := t) metadata
    simp [Box.step, heq]
  | peerSeen peerId => rfl
  | setTrust nodeId level => rfl
  | deliverySent packetId => exact absurd rfl (hsent packetId)

theorem Once.step (h : s.Once) {event : DeliveryEvent}
    (hcond : s.bringsNoSecondCopy p event = true) (hstep : s.step p event = some s') : s'.Once := by
  cases event with
  | box event =>
    by_cases hsent : ∃ packetId, event = .deliverySent packetId
    · obtain ⟨packetId, rfl⟩ := hsent
      cases hstep
    by_cases hingest : ∃ payload t, event = .ingestExternalDelivery payload t
    · obtain ⟨payload, t, rfl⟩ := hingest
      obtain rfl := Option.some.inj hstep
      rcases Box.ingestExternalDelivery_cases (p := p) (b := s.box) (t := t) payload with
        ⟨-, hsame⟩ | ⟨parsed, url, hparsed, hqueued⟩
      · exact h.shrink (by simpa [Box.step, hsame] using h.wellFormed) h.distinct
          (fun e he => by simpa [waiting, Box.step, hsame] using he) rfl
      · simp only [bringsNoSecondCopy, hparsed, Option.all_some] at hcond
        exact h.enqueue (Box.queuedDelivery p s.box.externalDeliveryQueue parsed url t.observed) hcond
          hqueued rfl rfl
    · have hqueue : (s.box.step p event).externalDeliveryQueue = s.box.externalDeliveryQueue :=
        queue_of_boxStep (fun payload t heq => hingest ⟨payload, t, heq⟩) fun packetId heq =>
          hsent ⟨packetId, heq⟩
      have hs' : s' = { s with box := s.box.step p event } := by
        cases event <;> first | exact (Option.some.inj hstep).symm | simp at hsent
      subst hs'
      exact h.shrink (by simpa [hqueue] using h.wellFormed) h.distinct
        (fun e he => by simpa [waiting, hqueue] using he) rfl
  | packet packetId priority payload now =>
    obtain rfl := Option.some.inj hstep
    rcases Box.handleExternalDelivery_cases (p := p) (b := s.box) packetId priority payload now with
      hsame | ⟨parsed, entry, hparsed, rfl, hsealed, hqueued⟩
    · rw [hsame]
      exact h
    · simp only [bringsNoSecondCopy, hparsed, Option.all_some, ← hsealed] at hcond
      exact h.enqueue entry hcond (by rw [hqueued]) rfl rfl
  | tick now =>
    obtain rfl := Option.some.inj hstep
    exact h.attemptExternalDeliveries now
  | posted ok =>
    simp only [DeliveryNode.step] at hstep
    split at hstep
    · next entry rest hattempt =>
      obtain rfl := Option.some.inj hstep
      exact h.afterPost hattempt ok
    · cases hstep

/-- As long as no copy comes in of what was delivered, nor under a second id of
what is waiting, every submission is delivered at most once. -/
theorem delivered_once
    (h : (system p).ReachableUnder (fun s event => s.bringsNoSecondCopy p event = true) s) :
    (s.delivered.map QueuedExternalDelivery.sealedSubmission).Nodup := by
  have honce : s.Once := by
    apply h.invariant
    · rintro s ⟨nodeId, o, rfl⟩
      refine ⟨Box.wellFormed_create nodeId o, List.nodup_nil, ?_, ?_, List.nodup_nil⟩
      · rintro e he
        simp [waiting, Box.create, OrderedMap.values] at he
      · rintro e he
        simp [waiting, Box.create, OrderedMap.values] at he
    · intro s event s' hs hcond hstep
      exact hs.step hcond hstep
  exact honce.once

/-- A client submits, the delivery succeeds, and the client, whose answer was
lost, submits the same bytes again. -/
theorem delivered_twice_on_retry :
    ¬∀ (p : Platform) (s : DeliveryNode), (system p).Reachable s →
      (s.delivered.map QueuedExternalDelivery.sealedSubmission).Nodup := by
  intro hclaim
  have hinit : (system (samplePlatform [])).Init ⟨Box.headquarterBox 100, none, []⟩ := ⟨_, _, rfl⟩
  have hrun : ((system (samplePlatform [])).run ⟨Box.headquarterBox 100, none, []⟩
      [.box (.ingestExternalDelivery (Box.headquarterPayload "00") (.const 0)), .tick 1, .posted true,
        .box (.ingestExternalDelivery (Box.headquarterPayload "00") (.const 2)), .tick 3,
        .posted true]).map (fun s => s.delivered.map QueuedExternalDelivery.sealedSubmission) =
      some [(Box.headquarterSubmission "00").sealedSubmission,
        (Box.headquarterSubmission "00").sealedSubmission] := by
    decide +kernel
  obtain ⟨s, hs, htwice⟩ := Option.map_eq_some_iff.mp hrun
  have hnodup := hclaim _ s (System.reachable_of_run hinit hs)
  rw [htwice] at hnodup
  simp at hnodup

/-- Two submissions, one of them retried while it waits. -/
theorem delivered_once_retried :
    ∃ s, (system (samplePlatform [])).runUnder (fun s event => s.bringsNoSecondCopy (samplePlatform []) event)
        ⟨Box.headquarterBox 100, none, []⟩
        [.box (.ingestExternalDelivery (Box.headquarterPayload "00") (.const 0)), .tick 1, .posted false,
          .box (.ingestExternalDelivery (Box.headquarterPayload "00") (.const 2)),
          .packet "u1" Priority.emergency.toJs (Box.headquarterPayload "ff") 2, .tick 3, .posted true,
          .posted true] = some s ∧
      s.delivered.length = 2 ∧ (s.delivered.map QueuedExternalDelivery.sealedSubmission).Nodup := by
  have hinit : (system (samplePlatform [])).Init ⟨Box.headquarterBox 100, none, []⟩ := ⟨_, _, rfl⟩
  have hrun : ((system (samplePlatform [])).runUnder
      (fun s event => s.bringsNoSecondCopy (samplePlatform []) event) ⟨Box.headquarterBox 100, none, []⟩
      [.box (.ingestExternalDelivery (Box.headquarterPayload "00") (.const 0)), .tick 1, .posted false,
        .box (.ingestExternalDelivery (Box.headquarterPayload "00") (.const 2)),
        .packet "u1" Priority.emergency.toJs (Box.headquarterPayload "ff") 2, .tick 3, .posted true,
        .posted true]).map (fun s => s.delivered.length) = some 2 := by
    decide +kernel
  obtain ⟨s, hs, htwo⟩ := Option.map_eq_some_iff.mp hrun
  exact ⟨s, hs, htwo, delivered_once (System.reachableUnder_of_runUnder hinit hs)⟩

end DeliveryNode
end Arald
