import Arald.Ingest.RelayReplay
import Arald.Ingest.Rejections

/-!
# The command poller

Commands are queued for a node in a database. A poller fetches the pending ones,
posts them to the ingest endpoints of the node one after the other, and marks
each as delivered or failed by the response. A response can be lost, a request
can time out and still be processed, a query can fail before or after it took
effect, and the node and the poller can restart at any time. A restarted node
remembers nothing.
-/

namespace Arald

open Foundations

/-! ### The data of the poller -/

/-- A row of `remote_commands`, with the submission that the endpoint of its kind
reads from its metadata, data and priority. -/
structure RemoteCommand where
  id : String
  submission : Submission
  createdAt : ℤ

inductive CommandStatus where
  | pending
  | delivered
  | failed (error : String)
  deriving DecidableEq

structure CommandRow where
  command : RemoteCommand
  status : CommandStatus

structure CommandPollSummary where
  delivered : ℕ := 0
  failed : ℕ := 0
  deferred : ℕ := 0
  deriving DecidableEq

def maxCommandsPerTick : ℕ := 20

def maxCommandAgeBeforeGivingUpMs : ℤ := 24 * 60 * 60 * 1000

/-- A response of an endpoint: its status and the error in its body. -/
structure Response where
  status : ℕ
  error : Option String
  deriving DecidableEq

/-- The response to a submission that reached the node. -/
def ingestResponse : Submission → IngestSignedContentResult → Response
  | _, .accepted => ⟨200, none⟩
  | .signedContent .., .rejected =>
    ⟨422, some "content did not verify (bad signature, hash mismatch, or already expired)"⟩
  | .signedContent .., .rateLimited =>
    ⟨429, some "too many requests for this identity, or this Box's elevated-drop budget is exhausted — try again later"⟩
  | .signedNodeAppend _, .rejected =>
    ⟨422, some "submission did not verify (bad signature, wrong target node, or already expired)"⟩
  | .signedNodeAppend _, .rateLimited =>
    ⟨429, some "too many requests for this identity, or this Box's elevated-node-append budget is exhausted — try again later"⟩
  | .signedRelayCommand _, .rejected =>
    ⟨422, some "submission did not verify (bad signature, wrong target node, or a replay of a prior command)"⟩
  | .signedRelayCommand _, .rateLimited =>
    ⟨429, some "too many requests for this identity, or this Box's relay-command budget is exhausted — try again later"⟩
  | .externalDelivery _, .rejected =>
    ⟨422, some "submission did not verify (malformed payload, or unknown destinationId)"⟩
  | .externalDelivery _, .rateLimited =>
    ⟨429, some "too many requests for this destination, or this Box's ingest budget is exhausted — try again later"⟩

def Response.isSuccess (r : Response) : Bool := 200 ≤ r.status && r.status < 300

def isTerminallyRejected (status : ℕ) : Bool := status = 422 || status = 400 || status = 413

/-- `Math.round(age / (60 * 60 * 1000))`. -/
def ageInHours (age : ℤ) : ℤ := (2 * age + 60 * 60 * 1000) / (2 * 60 * 60 * 1000)

/-- The new status of a command after an attempt; `none` leaves it pending. The
response is absent after a transport failure. -/
def judge (command : RemoteCommand) (result : Option Response) (now : ℤ) : Option CommandStatus :=
  let age := now - command.createdAt
  let giveUp (reason : String) : Option CommandStatus :=
    if maxCommandAgeBeforeGivingUpMs < age then
      some (.failed ("gave up after " ++ toString (ageInHours age) ++ "h, " ++ reason))
    else none
  match result with
  | none => giveUp "node unreachable"
  | some r =>
    if r.isSuccess then some .delivered
    else if isTerminallyRejected r.status then
      some (.failed (r.error.getD ("delivery rejected with status " ++ toString r.status)))
    else giveUp ("last status " ++ toString r.status)

def CommandPollSummary.count (s : CommandPollSummary) : Option CommandStatus → CommandPollSummary
  | some .delivered => { s with delivered := s.delivered + 1 }
  | some (.failed _) => { s with failed := s.failed + 1 }
  | _ => { s with deferred := s.deferred + 1 }

/-! ### The poller, the node and what lies between them -/

/-- What became of the request for the command at the head of the tick. -/
inductive Exchange where
  | idle
  | posted
  | answered (r : Response)
  deriving DecidableEq

structure PollRun where
  rows : List CommandRow
  box : Box
  /-- What is left of the tick that is under way; its head is being delivered. -/
  tick : List RemoteCommand
  exchange : Exchange
  summary : CommandPollSummary
  /-- The commands of requests that the poller has given up on and that may still arrive. -/
  stray : List RemoteCommand
  /-- The ids of the commands that the node accepted, once for each time. -/
  accepted : List String

inductive PollEvent where
  | queued (command : RemoteCommand)
  | tickStarted
  | post
  /-- The request reaches the ingest method of the node. -/
  | received (t : Readings)
  /-- The endpoint refuses the request before that. -/
  | refused (r : Response)
  /-- The response reaches the poller; its query is applied, and reports so, or not. -/
  | responded (now : ℤ) (applied reported : Bool)
  /-- The connection fails or times out; the request may be still on its way. -/
  | transportFailed (onItsWay : Bool) (now : ℤ) (applied reported : Bool)
  | strayReceived (i : ℕ) (t : Readings)
  | boxRestarted (nodeId : String) (o : Box.BoxOptions) (trust : TrustManager)
  | pollerRestarted (onItsWay : Bool)
  /-- Anything else that happens to the node. -/
  | box (e : BoxEvent)

namespace PollRun

/-- The pending commands, the oldest first. -/
def fetchPendingCommands (s : PollRun) : List RemoteCommand :=
  let pending := (s.rows.filter fun r => r.status = .pending).map CommandRow.command
  (pending.insertionSort fun a b => a.createdAt ≤ b.createdAt).take maxCommandsPerTick

def setStatus (rows : List CommandRow) (id : String) (status : CommandStatus) : List CommandRow :=
  rows.map fun r => if r.command.id = id then { r with status } else r

/-- The end of an attempt for the head of the tick. A query that reports a failure
throws, and ends the tick. -/
def settle (s : PollRun) (command : RemoteCommand) (rest : List RemoteCommand)
    (result : Option Response) (now : ℤ) (applied reported : Bool) : PollRun :=
  match judge command result now with
  | none => { s with tick := rest, exchange := .idle, summary := s.summary.count none }
  | some status =>
    { s with
      rows := if applied then setStatus s.rows command.id status else s.rows
      tick := if reported then rest else []
      exchange := .idle
      summary := if reported then s.summary.count (some status) else s.summary }

/-- The submission of a command reaches the node. -/
def ingested (p : Platform) (s : PollRun) (command : RemoteCommand) (t : Readings) :
    PollRun × Response :=
  let r := s.box.ingest p t command.submission
  ({ s with
      box := r.1
      accepted := if r.2 = .accepted then s.accepted ++ [command.id] else s.accepted },
    ingestResponse command.submission r.2)

/-- The request that is under way, if its answer is not known yet. -/
def onTheWay (s : PollRun) : List RemoteCommand :=
  match s.tick, s.exchange with
  | command :: _, .posted => [command]
  | _, _ => []

def step (p : Platform) (s : PollRun) : PollEvent → Option PollRun
  | .queued command =>
    if s.rows.any fun r => r.command.id = command.id then none
    else some { s with rows := s.rows ++ [⟨command, .pending⟩] }
  | .tickStarted =>
    if s.tick.isEmpty then
      some { s with tick := s.fetchPendingCommands, exchange := .idle, summary := {} }
    else none
  | .post =>
    match s.tick, s.exchange with
    | _ :: _, .idle => some { s with exchange := .posted }
    | _, _ => none
  | .received t =>
    match s.tick, s.exchange with
    | command :: _, .posted =>
      let r := s.ingested p command t
      some { r.1 with exchange := .answered r.2 }
    | _, _ => none
  | .refused r =>
    match s.tick, s.exchange with
    | _ :: _, .posted => if r.isSuccess then none else some { s with exchange := .answered r }
    | _, _ => none
  | .responded now applied reported =>
    match s.tick, s.exchange with
    | command :: rest, .answered r =>
      if reported && !applied then none else some (s.settle command rest (some r) now applied reported)
    | _, _ => none
  | .transportFailed onItsWay now applied reported =>
    match s.tick, s.exchange with
    | _, .idle => none
    | [], _ => none
    | command :: rest, _ =>
      if reported && !applied then none
      else
        let s := if onItsWay then { s with stray := s.stray ++ s.onTheWay } else s
        some (s.settle command rest none now applied reported)
  | .strayReceived i t =>
    match s.stray[i]? with
    | none => none
    | some command => some { (s.ingested p command t).1 with stray := s.stray.eraseIdx i }
  | .boxRestarted nodeId o trust => some { s with box := { Box.create nodeId o with trust } }
  | .pollerRestarted onItsWay =>
    let s := if onItsWay then { s with stray := s.stray ++ s.onTheWay } else s
    some { s with tick := [], exchange := .idle }
  | .box e => some { s with box := s.box.step p e }

/-- An empty queue and a node in any state. -/
def system (p : Platform) : System PollRun PollEvent where
  Init s := ∃ box, s = ⟨[], box, [], .idle, {}, [], []⟩
  step := step p

/-- The node has accepted the command of the request, and its answer is on its way. -/
def successOnItsWay (s : PollRun) : Bool :=
  match s.exchange with
  | .answered r => r.isSuccess
  | _ => false

/-- No acceptance goes unrecorded: its response arrives and the query is applied,
and no request arrives that the poller has given up on. -/
def acknowledges (s : PollRun) : PollEvent → Bool
  | .responded _ applied _ => applied || !s.successOnItsWay
  | .transportFailed .. => !s.successOnItsWay
  | .pollerRestarted _ => !s.successOnItsWay
  | .strayReceived .. => false
  | _ => true

/-! ### The rows and the tick -/

section
variable {rows : List CommandRow} {id : String} {status : CommandStatus} {r : CommandRow}

@[simp] theorem ids_setStatus : (setStatus rows id status).map (fun r => r.command.id) =
    rows.map fun r => r.command.id := by
  rw [setStatus, List.map_map]
  apply List.map_congr_left
  intro r _
  simp only [Function.comp_apply]
  split_ifs <;> rfl

theorem mem_setStatus_of_ne (hr : r ∈ rows) (hid : r.command.id ≠ id) :
    r ∈ setStatus rows id status :=
  List.mem_map.mpr ⟨r, hr, if_neg hid⟩

theorem mem_setStatus_self {command : RemoteCommand} (hr : r ∈ rows) (hcommand : r.command = command) :
    ⟨command, status⟩ ∈ setStatus rows command.id status := by
  subst hcommand
  exact List.mem_map.mpr ⟨r, hr, if_pos rfl⟩

/-- The id determines the row. -/
theorem row_unique {r' : CommandRow} (hids : (rows.map fun r => r.command.id).Nodup) (hr : r ∈ rows)
    (hr' : r' ∈ rows) (hid : r.command.id = r'.command.id) : r = r' :=
  List.inj_on_of_nodup_map hids hr hr' hid

end

/-- The commands of a tick are pending rows. -/
theorem mem_fetchPendingCommands {s : PollRun} {command : RemoteCommand}
    (h : command ∈ s.fetchPendingCommands) : ⟨command, .pending⟩ ∈ s.rows := by
  have hmem := (List.perm_insertionSort _ _).mem_iff.mp (List.mem_of_mem_take h)
  obtain ⟨⟨c, status⟩, hrow, rfl⟩ := List.mem_map.mp hmem
  obtain ⟨hrow, hpending⟩ := List.mem_filter.mp hrow
  obtain rfl : status = .pending := of_decide_eq_true hpending
  exact hrow

theorem nodup_fetchPendingCommands {s : PollRun} (hids : (s.rows.map fun r => r.command.id).Nodup) :
    (s.fetchPendingCommands.map RemoteCommand.id).Nodup := by
  have hpending : (((s.rows.filter fun r => r.status = .pending).map CommandRow.command).map
      RemoteCommand.id).Nodup := by
    rw [List.map_map]
    exact hids.sublist (List.filter_sublist.map _)
  have hsorted := ((List.perm_insertionSort (fun a b : RemoteCommand => a.createdAt ≤ b.createdAt) _).map
    RemoteCommand.id).nodup_iff.mpr hpending
  exact hsorted.sublist ((List.take_sublist _ _).map _)

/-! ### Every acceptance is recorded -/

/-- What a run keeps to as long as every acceptance is acknowledged. -/
structure Recorded (s : PollRun) : Prop where
  ids : (s.rows.map fun r => r.command.id).Nodup
  tick : ∀ c ∈ s.tick, ⟨c, .pending⟩ ∈ s.rows
  tickIds : (s.tick.map RemoteCommand.id).Nodup
  accepted : s.accepted.Nodup
  /-- An accepted command is delivered, or its success is on the way to the poller. -/
  recorded : ∀ id ∈ s.accepted, (∃ r ∈ s.rows, r.command.id = id ∧ r.status = .delivered) ∨
    (s.successOnItsWay = true ∧ (s.tick.head?.map RemoteCommand.id) = some id)

namespace Recorded

variable {p : Platform} {s s' : PollRun} {command : RemoteCommand} {rest : List RemoteCommand}

/-- A pending command without a success on its way was never accepted. -/
theorem notMem_accepted (h : Recorded s) (hrow : ⟨command, .pending⟩ ∈ s.rows)
    (hidle : s.successOnItsWay = false) : command.id ∉ s.accepted := by
  intro hmem
  rcases h.recorded command.id hmem with ⟨r, hr, hid, hdelivered⟩ | ⟨hsuccess, -⟩
  · obtain rfl := row_unique h.ids hr hrow hid
    cases hdelivered
  · rw [hidle] at hsuccess
    cases hsuccess

theorem of_same (h : Recorded s) (hrows : s'.rows = s.rows) (htick : s'.tick = s.tick)
    (haccepted : s'.accepted = s.accepted) (hsuccess : s'.successOnItsWay = s.successOnItsWay) :
    Recorded s' where
  ids := hrows ▸ h.ids
  tick := by rw [hrows, htick]; exact h.tick
  tickIds := htick ▸ h.tickIds
  accepted := haccepted ▸ h.accepted
  recorded := by rw [hrows, htick, haccepted, hsuccess]; exact h.recorded

/-- Between two attempts every accepted command is delivered. -/
theorem settle (h : Recorded s) (htick : s.tick = command :: rest) {result : Option Response}
    {now : ℤ} {applied : Bool} (reported : Bool)
    (hack : s.successOnItsWay = true → judge command result now = some .delivered ∧ applied = true) :
    Recorded (s.settle command rest result now applied reported) := by
  have hrow : ⟨command, .pending⟩ ∈ s.rows := h.tick command (by rw [htick]; exact List.mem_cons_self ..)
  have hrest : ∀ c ∈ rest, c.id ≠ command.id ∧ ⟨c, .pending⟩ ∈ s.rows := by
    intro c hc
    have hnodup := h.tickIds
    rw [htick, List.map_cons, List.nodup_cons] at hnodup
    refine ⟨fun hid => hnodup.1 (hid ▸ List.mem_map_of_mem hc), h.tick c ?_⟩
    rw [htick]
    exact List.mem_cons_of_mem _ hc
  have hrestIds : (rest.map RemoteCommand.id).Nodup := by
    have hnodup := h.tickIds
    rw [htick, List.map_cons, List.nodup_cons] at hnodup
    exact hnodup.2
  unfold PollRun.settle
  cases hjudge : judge command result now with
  | none =>
    have hidle : s.successOnItsWay = false :=
      Bool.eq_false_iff.mpr fun hsuccess => by simpa [hjudge] using (hack hsuccess).1
    refine ⟨h.ids, fun c hc => (hrest c hc).2, hrestIds, h.accepted, fun id hid => .inl ?_⟩
    exact (h.recorded id hid).resolve_right fun hsuccess => by simpa [hidle] using hsuccess.1
  | some status =>
    have hids : ((if applied then setStatus s.rows command.id status else s.rows).map
        fun r => r.command.id).Nodup := by
      cases applied
      · exact h.ids
      · simpa using h.ids
    have hkeep : ∀ r ∈ s.rows, r.command.id ≠ command.id →
        r ∈ if applied then setStatus s.rows command.id status else s.rows := by
      intro r hr hne
      cases applied
      · exact hr
      · exact mem_setStatus_of_ne hr hne
    have hsub : (if reported then rest else []).Sublist rest := by
      cases reported
      · exact List.nil_sublist rest
      · exact List.Sublist.refl rest
    refine ⟨hids, fun c hc => ?_, hrestIds.sublist (hsub.map _), h.accepted, fun id hid => .inl ?_⟩
    · have hc' := hrest c (hsub.subset hc)
      exact hkeep _ hc'.2 hc'.1
    · rcases h.recorded id hid with ⟨r, hr, rfl, hdelivered⟩ | ⟨hsuccess, hhead⟩
      · have hne : r.command.id ≠ command.id := by
          intro heq
          obtain rfl := row_unique h.ids hr hrow heq
          cases hdelivered
        exact ⟨r, hkeep r hr hne, rfl, hdelivered⟩
      · obtain ⟨hstatus, rfl⟩ := hack hsuccess
        obtain rfl : status = .delivered := Option.some_inj.mp (hjudge.symm.trans hstatus)
        obtain rfl : command.id = id := by simpa [htick] using hhead
        exact ⟨_, mem_setStatus_self hrow rfl, rfl, rfl⟩

/-- The request of a pending command reaches the node, and the answer sets out. -/
theorem received (h : Recorded s) (htick : s.tick = command :: rest)
    (hidle : s.successOnItsWay = false) (t : Readings) :
    Recorded { (s.ingested p command t).1 with exchange := .answered (s.ingested p command t).2 } := by
  have hrow : ⟨command, .pending⟩ ∈ s.rows := h.tick command (by rw [htick]; exact List.mem_cons_self ..)
  have hdelivered : ∀ id ∈ s.accepted, ∃ r ∈ s.rows, r.command.id = id ∧ r.status = .delivered :=
    fun id hid => (h.recorded id hid).resolve_right fun hsuccess => by simpa [hidle] using hsuccess.1
  unfold ingested
  dsimp only
  cases hresult : (s.box.ingest p t command.submission).2 with
  | accepted =>
    refine ⟨h.ids, h.tick, h.tickIds, ?_, ?_⟩
    · rw [if_pos rfl]
      exact List.Nodup.append h.accepted (List.nodup_singleton _)
        (List.disjoint_singleton.mpr (h.notMem_accepted hrow hidle))
    · rw [if_pos rfl]
      intro id hid
      rcases List.mem_append.mp hid with hid | hid
      · exact .inl (hdelivered id hid)
      · obtain rfl := List.mem_singleton.mp hid
        right
        refine ⟨?_, by rw [htick]; rfl⟩
        cases command.submission <;> rfl
  | rejected => exact ⟨h.ids, h.tick, h.tickIds, h.accepted, fun id hid => .inl (hdelivered id hid)⟩
  | rateLimited => exact ⟨h.ids, h.tick, h.tickIds, h.accepted, fun id hid => .inl (hdelivered id hid)⟩

/-- Without a tick every accepted command is delivered. -/
theorem delivered_of_idle (h : Recorded s) (hidle : s.successOnItsWay = false ∨ s.tick = []) :
    ∀ id ∈ s.accepted, ∃ r ∈ s.rows, r.command.id = id ∧ r.status = .delivered := by
  intro id hid
  refine (h.recorded id hid).resolve_right fun ⟨hsuccess, hhead⟩ => ?_
  rcases hidle with hidle | hidle
  · rw [hidle] at hsuccess
    cases hsuccess
  · rw [hidle] at hhead
    cases hhead

theorem queued (h : Recorded s) (hnew : (s.rows.any fun r => r.command.id = command.id) = false) :
    Recorded { s with rows := s.rows ++ [⟨command, .pending⟩] } where
  ids := by
    rw [List.map_append]
    refine List.Nodup.append h.ids (List.nodup_singleton _) (List.disjoint_singleton.mpr fun hmem => ?_)
    obtain ⟨r, hr, hid⟩ := List.mem_map.mp hmem
    exact List.any_eq_false.mp hnew r hr (decide_eq_true hid)
  tick c hc := List.mem_append_left _ (h.tick c hc)
  tickIds := h.tickIds
  accepted := h.accepted
  recorded id hid := by
    rcases h.recorded id hid with ⟨r, hr, hr'⟩ | hsuccess
    · exact .inl ⟨r, List.mem_append_left _ hr, hr'⟩
    · exact .inr hsuccess

theorem step {e : PollEvent} (h : Recorded s) (hack : s.acknowledges e = true)
    (hstep : PollRun.step p s e = some s') : Recorded s' := by
  cases e with
  | queued command =>
    simp only [PollRun.step] at hstep
    split_ifs at hstep with hnew
    cases hstep
    exact h.queued (Bool.eq_false_iff.mpr hnew)
  | tickStarted =>
    simp only [PollRun.step] at hstep
    split_ifs at hstep with hempty
    cases hstep
    have htick : s.tick = [] := List.isEmpty_iff.mp hempty
    exact ⟨h.ids, fun c hc => mem_fetchPendingCommands hc, nodup_fetchPendingCommands h.ids, h.accepted,
      fun id hid => .inl (h.delivered_of_idle (.inr htick) id hid)⟩
  | post =>
    simp only [PollRun.step] at hstep
    split at hstep
    · next hexchange =>
      cases hstep
      refine h.of_same rfl rfl rfl ?_
      simp [successOnItsWay, hexchange]
    · cases hstep
  | received t =>
    simp only [PollRun.step] at hstep
    split at hstep
    · next htick hexchange =>
      cases hstep
      exact h.received htick (by simp [successOnItsWay, hexchange]) t
    · cases hstep
  | refused r =>
    simp only [PollRun.step] at hstep
    split at hstep
    · next hexchange =>
      split_ifs at hstep with hsuccess
      cases hstep
      refine h.of_same rfl rfl rfl ?_
      simp [successOnItsWay, hexchange, hsuccess]
    · cases hstep
  | responded now applied reported =>
    simp only [PollRun.step] at hstep
    split at hstep
    · next r htick hexchange =>
      split_ifs at hstep
      cases hstep
      refine h.settle htick reported fun hsuccess => ?_
      have hr : r.isSuccess = true := by simpa [successOnItsWay, hexchange] using hsuccess
      exact ⟨by simp [judge, hr], by simpa [acknowledges, hsuccess] using hack⟩
    · cases hstep
  | transportFailed onItsWay now applied reported =>
    have hidle : s.successOnItsWay = false := by simpa [acknowledges] using hack
    simp only [PollRun.step] at hstep
    split at hstep
    · cases hstep
    · cases hstep
    · next htick hexchange =>
      split_ifs at hstep
      · cases hstep
        have hstray : Recorded { s with stray := s.stray ++ s.onTheWay } := h.of_same rfl rfl rfl rfl
        exact hstray.settle htick reported fun hsuccess => by
          exact absurd (hidle.symm.trans hsuccess) Bool.false_ne_true
      · cases hstep
        exact h.settle htick reported fun hsuccess => by
          exact absurd (hidle.symm.trans hsuccess) Bool.false_ne_true
  | strayReceived i t => cases hack
  | boxRestarted nodeId o trust =>
    cases hstep
    exact h.of_same rfl rfl rfl rfl
  | pollerRestarted onItsWay =>
    have hidle : s.successOnItsWay = false := by simpa [acknowledges] using hack
    have hdelivered := h.delivered_of_idle (.inl hidle)
    cases onItsWay <;>
    · cases hstep
      exact ⟨h.ids, by simp, List.nodup_nil, h.accepted, fun id hid => .inl (hdelivered id hid)⟩
  | box e =>
    cases hstep
    exact h.of_same rfl rfl rfl rfl

end Recorded

/-- In a run in which every acceptance is acknowledged, no command is accepted
twice, and none that was accepted is marked as failed. -/
theorem commands_applied_once {p : Platform} {s : PollRun}
    (h : (system p).ReachableUnder (fun s e => s.acknowledges e = true) s) :
    s.accepted.Nodup ∧
      ∀ r ∈ s.rows, ∀ error, r.status = .failed error → r.command.id ∉ s.accepted := by
  have hrecorded : Recorded s := by
    apply h.invariant (I := Recorded)
    · rintro _ ⟨box, rfl⟩
      exact ⟨List.nodup_nil, by simp, List.nodup_nil, List.nodup_nil, by simp⟩
    · intro s e s' hs hack hstep
      exact hs.step hack hstep
  refine ⟨hrecorded.accepted, fun r hr error hfailed hmem => ?_⟩
  rcases hrecorded.recorded _ hmem with ⟨r', hr', hid, hdelivered⟩ | ⟨-, hhead⟩
  · obtain rfl := row_unique hrecorded.ids hr' hr hid
    rw [hfailed] at hdelivered
    cases hdelivered
  · obtain ⟨command, hcommand, hid⟩ := Option.map_eq_some_iff.mp hhead
    have hpending := hrecorded.tick command (List.mem_of_head? hcommand)
    obtain rfl := row_unique hrecorded.ids hpending hr hid
    cases hfailed

/-! ### A reboot whose response is lost -/

/-- A reboot of the node `hut`, as the portal signs it. -/
def signedReboot : JsValue :=
  let unsigned : SignedRelayCommandSubmission :=
    { timestamp := 1, targetNodeId := "hut", publisherId := "operator", signature := "" }
  .obj [("command", .str "reboot"), ("timestamp", .num (.finite 1)), ("targetNodeId", .str "hut"),
    ("publisherId", .str "operator"),
    ("signature", .str ((samplePlatform []).sign "operator"
      (relayCommandSigningPayload (samplePlatform []) unsigned)))]

def reboot : RemoteCommand := ⟨"c1", .signedRelayCommand signedReboot, 0⟩

def emptyQueue : PollRun := ⟨[], .create "hut" {}, [], .idle, {}, [], []⟩

/-- Restarts before and after, and a response that is recorded: one reboot. -/
theorem commands_applied_once_reboot :
    ∃ s, (system (samplePlatform [])).ReachableUnder (fun s e => s.acknowledges e = true) s ∧
      s.accepted = ["c1"] ∧ s.rows.map CommandRow.status = [.delivered] ∧ s.accepted.Nodup := by
  have hrun : (((system (samplePlatform [])).runUnder (fun s e => s.acknowledges e) emptyQueue
      [.queued reboot, .tickStarted, .post, .transportFailed false 1 true true,
        .boxRestarted "hut" {} ⟨.empty, ⊤⟩, .tickStarted, .post, .received (.const 2),
        .boxRestarted "hut" {} ⟨.empty, ⊤⟩, .responded 3 true true, .tickStarted]).map
          fun s => (s.accepted, s.rows.map CommandRow.status)) = some (["c1"], [.delivered]) := by
    decide +kernel
  obtain ⟨s, hs, hlog⟩ := Option.map_eq_some_iff.mp hrun
  obtain ⟨haccepted, hrows⟩ := Prod.ext_iff.mp hlog
  have hreach : (system (samplePlatform [])).ReachableUnder (fun s e => s.acknowledges e = true) s :=
    System.reachableUnder_of_runUnder ⟨_, rfl⟩ hs
  exact ⟨s, hreach, haccepted, hrows, (commands_applied_once hreach).1⟩

/-- A reboot is accepted, and its response gets lost. -/
def lostResponse : List PollEvent :=
  [.queued reboot, .tickStarted, .post, .received (.const 2), .transportFailed false 3 true true]

def retry : List PollEvent := [.tickStarted, .post, .received (.const 4), .responded 5 true true]

/-- The response to a reboot is lost. If the node restarts, it reboots once more;
if not, the retry is a replay, and the poller marks the command as failed. -/
theorem lost_response_misreported :
    (¬∀ (p : Platform) (s : PollRun), (system p).Reachable s → s.accepted.Nodup) ∧
    ¬∀ (p : Platform) (s : PollRun), (system p).Reachable s →
      ∀ r ∈ s.rows, ∀ error, r.status = .failed error → r.command.id ∉ s.accepted := by
  have hrestarted : (((system (samplePlatform [])).run emptyQueue
      (lostResponse ++ .boxRestarted "hut" {} ⟨.empty, ⊤⟩ :: retry)).map PollRun.accepted) =
        some ["c1", "c1"] := by
    decide +kernel
  have hretried : (((system (samplePlatform [])).run emptyQueue (lostResponse ++ retry)).map
      fun s => (s.accepted, s.rows.map fun r => (r.command.id, r.status))) = some (["c1"], [("c1", .failed
        "submission did not verify (bad signature, wrong target node, or a replay of a prior command)")]) := by
    decide +kernel
  constructor
  · intro hclaim
    obtain ⟨s, hs, haccepted⟩ := Option.map_eq_some_iff.mp hrestarted
    have hnodup := hclaim _ s (System.reachable_of_run ⟨_, rfl⟩ hs)
    rw [haccepted] at hnodup
    exact absurd hnodup (by decide)
  · intro hclaim
    obtain ⟨s, hs, hlog⟩ := Option.map_eq_some_iff.mp hretried
    obtain ⟨haccepted, hrows⟩ := Prod.ext_iff.mp hlog
    dsimp only at haccepted hrows
    obtain ⟨r, hr, hpair⟩ := List.mem_map.mp (hrows ▸ List.mem_singleton_self _)
    obtain ⟨hid, hstatus⟩ := Prod.ext_iff.mp hpair
    have hnot := hclaim _ s (System.reachable_of_run ⟨_, rfl⟩ hs) r hr _ hstatus
    rw [haccepted] at hnot
    exact hnot (List.mem_singleton.mpr hid)

end PollRun
end Arald
