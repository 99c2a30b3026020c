import Arald.Phone.DropQueue

/-!
# What becomes of a queued drop

`flushPendingDrops` reports a drop as published, discarded or expired. Found expired in
the storage, or in the storage when a send closes it, a drop leaves the storage with its
one report. But a flush also reports entries of its snapshot without another look at the
storage, and these may have been reported before.
-/

namespace Arald

open Foundations

namespace DropQueue

/-- The callbacks that end the life of a drop. -/
inductive DropReport where
  | published
  | discarded
  | expired
  deriving DecidableEq

/-- The report after a send. -/
def SendOutcome.report : SendOutcome → Option DropReport
  | .succeeded => some .published
  | .failed status => if classifyDropSendFailure status = .discard then some .discarded else none

/-- All reports made: those after a send, and the entries handed to `onExpired`. -/
def reports (s : DropQueue) : List (PendingDrop × DropReport) :=
  (s.settled.filterMap fun send => send.2.report.map fun report => (send.1, report)) ++
    s.handed.map fun e => (e, .expired)

def reportsOf (s : DropQueue) (e : PendingDrop) : List DropReport :=
  (s.reports.filter fun report => report.1 = e).map Prod.snd

/-- The entry of a snapshot that is reported in reaction to the event. -/
def reportedBy (s : DropQueue) : DropQueueEvent → Option PendingDrop
  | .attempt i checked => s.flushes[i]?.bind fun f =>
      f.pending.head?.filter fun e => e.gateway = f.gateway && e.remainingLifetimeMs checked ≤ 0
  | .settled i outcome =>
    if outcome.report.isSome then s.flushes[i]?.bind fun f => f.pending.head? else none
  | _ => none

/-- What is reported from a snapshot is still stored. -/
def reportsStored (s : DropQueue) (event : DropQueueEvent × ℤ) : Bool :=
  (s.reportedBy event.1).all fun e => s.storage.any fun e' => e'.queueId = e.queueId

/-- Every enqueued entry is stored or was reported, once and not both. -/
def Accounted (s : DropQueue) : Prop :=
  (s.storage.map PendingDrop.unmarked ++ s.reports.map Prod.fst).Perm s.enqueued

variable {s s' : DropQueue} {i : ℕ} {f : Flush} {e : PendingDrop} {rest : List PendingDrop}

theorem length_reportsOf (s : DropQueue) (e : PendingDrop) :
    (s.reportsOf e).length = (s.reports.map Prod.fst).count e := by
  rw [reportsOf, List.length_map, List.count, List.countP_map, List.countP_eq_length_filter]
  rfl

theorem reports_settled (s : DropQueue) (e : PendingDrop) (outcome : SendOutcome) :
    (reports { s with settled := s.settled ++ [(e, outcome)] }).Perm
      (s.reports ++ (outcome.report.map fun report => (e, report)).toList) := by
  have hlog : (s.settled ++ [(e, outcome)]).filterMap
        (fun send => send.2.report.map fun report => (send.1, report)) =
      (s.settled.filterMap fun send => send.2.report.map fun report => (send.1, report)) ++
        (outcome.report.map fun report => (e, report)).toList := by
    rw [List.filterMap_append]
    cases houtcome : outcome.report <;> simp [houtcome]
  rw [reports, hlog, reports, List.append_assoc, List.append_assoc]
  exact List.perm_append_comm.append_left _

theorem reports_handed (s : DropQueue) (expired : List PendingDrop) :
    reports { s with handed := s.handed ++ expired } =
      s.reports ++ expired.map fun e => (e, .expired) := by
  rw [reports, List.map_append, ← List.append_assoc, reports]

/-- Removing a stored entry takes this one entry out. -/
theorem removePendingDrop_perm {storage : List PendingDrop} {e : PendingDrop} {queueId : String}
    (hids : (storage.map PendingDrop.queueId).Nodup) (he : e ∈ storage) (hid : e.queueId = queueId) :
    storage.Perm (e :: removePendingDrop storage queueId) := by
  have hsplit := List.filter_append_perm (fun e : PendingDrop => decide (e.queueId = queueId)) storage
  have hone : storage.filter (fun e => decide (e.queueId = queueId)) = [e] := by
    have hnodup : (storage.filter fun e => decide (e.queueId = queueId)).Nodup := hids.of_map.filter _
    refine List.perm_singleton.mp ((List.perm_ext_iff_of_nodup hnodup (List.nodup_singleton e)).mpr ?_)
    intro e'
    rw [List.mem_filter, List.mem_singleton]
    constructor
    · rintro ⟨he', hid'⟩
      exact List.inj_on_of_nodup_map hids he' he ((of_decide_eq_true hid').trans hid.symm)
    · rintro rfl
      exact ⟨he, decide_eq_true hid⟩
  rw [hone] at hsplit
  refine hsplit.symm.trans (List.Perm.cons _ (List.Perm.of_eq (List.filter_congr fun e' _ => ?_)))
  simp

namespace Accounted

/-- A step that neither stores nor reports anything. -/
theorem same (h : Accounted s) (henqueued : s'.enqueued = s.enqueued)
    (hstorage : s'.storage.map PendingDrop.unmarked = s.storage.map PendingDrop.unmarked)
    (hreports : s'.reports.Perm s.reports) : Accounted s' := by
  rw [Accounted, henqueued, hstorage]
  exact ((hreports.map Prod.fst).append_left _).trans h

/-- What leaves the storage is reported. -/
theorem move (h : Accounted s) {moved : List (PendingDrop × DropReport)} (henqueued : s'.enqueued = s.enqueued)
    (hstorage : (s.storage.map PendingDrop.unmarked).Perm
      (moved.map Prod.fst ++ s'.storage.map PendingDrop.unmarked))
    (hreports : s'.reports.Perm (s.reports ++ moved)) : Accounted s' := by
  have hlog := hreports.map Prod.fst
  rw [List.map_append] at hlog
  rw [Accounted, henqueued]
  refine List.Perm.trans ?_ h
  calc (s'.storage.map PendingDrop.unmarked ++ s'.reports.map Prod.fst).Perm
        (s'.storage.map PendingDrop.unmarked ++ (moved.map Prod.fst ++ s.reports.map Prod.fst)) :=
        (hlog.trans List.perm_append_comm).append_left _
    List.Perm _ (moved.map Prod.fst ++ s'.storage.map PendingDrop.unmarked ++ s.reports.map Prod.fst) := by
        rw [← List.append_assoc]
        exact List.perm_append_comm.append_right _
    List.Perm _ (s.storage.map PendingDrop.unmarked ++ s.reports.map Prod.fst) :=
        hstorage.symm.append_right _

/-- A report of a stored entry takes it out of the storage. -/
theorem report (h : Accounted s) (hs : Conserved s) (he : e.unmarked ∈ s.enqueued)
    (hstored : s.storage.any (fun e' => e'.queueId = e.queueId) = true) (r : DropReport)
    (henqueued : s'.enqueued = s.enqueued) (hstorage : s'.storage = removePendingDrop s.storage e.queueId)
    (hreports : s'.reports.Perm (s.reports ++ [(e.unmarked, r)])) : Accounted s' := by
  obtain ⟨e', he', hid⟩ := List.any_eq_true.mp hstored
  have hid' : e'.queueId = e.queueId := of_decide_eq_true hid
  have hsame : e'.unmarked = e.unmarked := List.inj_on_of_nodup_map hs.ids (hs.stored e' he') he hid'
  have hremoved := (removePendingDrop_perm hs.storedIds he' hid').map PendingDrop.unmarked
  rw [List.map_cons, hsame, ← hstorage] at hremoved
  refine h.move henqueued ?_ hreports
  exact hremoved

theorem setFlush (h : Accounted s) (g : Flush) : Accounted (s.setFlush i g) :=
  h.same rfl rfl (List.Perm.refl _)

theorem startFlush (h : Accounted s) (hs : Conserved s) (gateway : String) :
    Accounted (s.startFlush gateway) := by
  have hqueuedAt : ∀ e ∈ s.storage, e.queuedAt ≤ s.clock :=
    fun e he => hs.queuedAt e.unmarked (hs.stored e he)
  have hsplit := (List.filter_append_perm (fun e => e.isPendingDropExpired s.clock) s.storage).map
    PendingDrop.unmarked
  rw [List.map_append] at hsplit
  unfold DropQueue.startFlush
  rw [loadPendingDrops_eq hqueuedAt]
  refine h.move rfl ?_ (List.Perm.of_eq (reports_handed s _))
  rw [List.map_map, Function.comp_def, List.map_id']
  exact hsplit.symm

theorem attempt (h : Accounted s) (hs : Conserved s) (hf : s.flushes[i]? = some f)
    (hpending : f.pending = e :: rest) {checked : ℤ}
    (hstored : e.gateway = f.gateway → e.remainingLifetimeMs checked ≤ 0 →
      s.storage.any (fun e' => e'.queueId = e.queueId) = true) :
    Accounted (s.attempt i f e rest checked) := by
  have he : e.unmarked ∈ s.enqueued :=
    hs.snapshots f (List.mem_of_getElem? hf) e (by rw [hpending]; exact List.mem_cons_self ..)
  unfold DropQueue.attempt
  split_ifs with hgateway hlifetime
  · exact h.setFlush _
  · refine h.report hs he (hstored (not_not.mp hgateway) hlifetime) .expired rfl rfl ?_
    exact List.Perm.of_eq (reports_handed s [e.unmarked])
  · split
    · exact h.setFlush _
    · next storage hclaim =>
      obtain ⟨rfl, -⟩ := claimPendingDrop_eq_some hclaim
      exact h.same rfl unmarked_mark (List.Perm.refl _)

theorem settle (h : Accounted s) (hs : Conserved s) (hf : s.flushes[i]? = some f)
    (hpending : f.pending = e :: rest) {outcome : SendOutcome}
    (hstored : outcome.report.isSome = true →
      s.storage.any (fun e' => e'.queueId = e.queueId) = true) :
    Accounted (s.settle i f e rest outcome) := by
  have he : e.unmarked ∈ s.enqueued :=
    hs.snapshots f (List.mem_of_getElem? hf) e (by rw [hpending]; exact List.mem_cons_self ..)
  have hlog := reports_settled s e.unmarked outcome
  have hclosed : ∀ report result, outcome.report = some report → Accounted
      { s with
        settled := s.settled ++ [(e.unmarked, outcome)]
        flushes := s.flushes.set i (f.next rest result)
        storage := removePendingDrop s.storage e.queueId } := by
    intro report result hreport
    rw [hreport] at hlog hstored
    exact h.report hs he (hstored rfl) report rfl rfl hlog
  have hreleased : ∀ (rest' : List PendingDrop) result, outcome.report = none → Accounted
      { s with
        settled := s.settled ++ [(e.unmarked, outcome)]
        flushes := s.flushes.set i (f.next rest' result)
        storage := releasePendingDrop s.storage e.queueId } := by
    intro rest' result hreport
    rw [hreport, Option.map_none, Option.toList_none, List.append_nil] at hlog
    exact h.same rfl (by rw [releasePendingDrop, unmarked_mark]) hlog
  unfold DropQueue.settle
  cases outcome with
  | succeeded => exact hclosed .published _ rfl
  | failed status =>
    dsimp only
    cases hclass : classifyDropSendFailure status with
    | discard => exact hclosed .discarded _ (if_pos hclass)
    | reauth => exact hreleased [] _ (if_neg (by simp [hclass]))
    | retry => exact hreleased [] _ (if_neg (by simp [hclass]))
    | throttled => exact hreleased rest _ (if_neg (by simp [hclass]))
    | unsupported => exact hreleased rest _ (if_neg (by simp [hclass]))

theorem react {event : DropQueueEvent} (h : Accounted s) (hs : Conserved s)
    (hstored : ∀ e, s.reportedBy event = some e →
      s.storage.any (fun e' => e'.queueId = e.queueId) = true)
    (hstep : s.react event = some s') : Accounted s' := by
  cases event with
  | enqueue input newId now =>
    obtain rfl | ⟨e, hnew, -, -, rfl⟩ := react_enqueue hstep
    · exact h
    · have hunmarked : e.unmarked = e := by rw [PendingDrop.unmarked, ← hnew]
      rw [Accounted, List.map_append, List.map_singleton, hunmarked, List.append_assoc]
      refine (List.perm_append_comm.append_left _).trans ?_
      rw [← List.append_assoc]
      exact h.append_right [e]
  | flushStarted gateway =>
    cases hstep
    exact h.startFlush hs gateway
  | attempt i checked =>
    simp only [DropQueue.react] at hstep
    split at hstep
    · cases hstep
    · next f hf =>
      split at hstep
      · next e rest hpending _ =>
        split_ifs at hstep
        cases hstep
        refine h.attempt hs hf hpending fun hgateway hlifetime => hstored e ?_
        simp [reportedBy, hf, hpending, hgateway, hlifetime]
      · cases hstep
  | settled i outcome =>
    simp only [DropQueue.react] at hstep
    split at hstep
    · cases hstep
    · next f hf =>
      split at hstep
      · next e rest since hpending _ =>
        cases hstep
        refine h.settle hs hf hpending fun hreport => hstored e ?_
        simp [reportedBy, hf, hpending, hreport]
      · cases hstep
  | closed i =>
    simp only [DropQueue.react] at hstep
    split at hstep
    · cases hstep
    · cases hstep
      exact h.setFlush _

end Accounted

theorem accounted (h : system.ReachableUnder (fun s event => s.reportsStored event = true) s) :
    Accounted s := by
  apply h.invariant_of (I := Accounted) (J := Conserved)
  · exact fun s => conserved
  · rintro _ ⟨clock, rfl⟩
    exact List.Perm.nil
  · intro s event s' hs haccounted hcondition hstep _
    obtain ⟨hclock, hreact⟩ := step_eq_some hstep
    have htick : Accounted { s with clock := event.2 } := haccounted.same rfl rfl (List.Perm.refl _)
    refine htick.react (hs.tick hclock) (fun e he => ?_) hreact
    have hreported : s.reportedBy event.1 = some e := he
    rw [reportsStored, hreported] at hcondition
    exact hcondition

/-- The reports of an enqueued entry: one, or none while it is stored. -/
theorem Accounted.count (h : Accounted s) (hs : Conserved s) (he : e ∈ s.enqueued) :
    (s.storage.map PendingDrop.unmarked).count e + (s.reportsOf e).length = 1 := by
  rw [length_reportsOf, ← List.count_append, h.count_eq]
  exact List.count_eq_one_of_mem hs.ids.of_map he

theorem settle_logs (i : ℕ) (f : Flush) (e : PendingDrop) (rest : List PendingDrop) (outcome : SendOutcome) :
    (s.settle i f e rest outcome).enqueued = s.enqueued ∧
      (s.settle i f e rest outcome).reports =
        reports { s with settled := s.settled ++ [(e.unmarked, outcome)] } := by
  unfold DropQueue.settle
  cases outcome with
  | succeeded => exact ⟨rfl, rfl⟩
  | failed status =>
    dsimp only
    cases classifyDropSendFailure status <;> exact ⟨rfl, rfl⟩

/-- An event that reports an entry of a snapshot adds its report to the log. -/
theorem reports_of_reportedBy {event : DropQueueEvent} (hreported : s.reportedBy event = some e)
    (hstep : s.react event = some s') :
    (∃ f ∈ s.flushes, e ∈ f.pending) ∧ s'.enqueued = s.enqueued ∧
      ∃ r, s'.reports.Perm (s.reports ++ [(e.unmarked, r)]) := by
  cases event with
  | enqueue input newId now => cases hreported
  | flushStarted gateway => cases hreported
  | closed i => cases hreported
  | attempt i checked =>
    obtain ⟨f, hf, hhead⟩ := Option.bind_eq_some_iff.mp hreported
    obtain ⟨hhead, hdue⟩ := Option.filter_eq_some_iff.mp hhead
    obtain ⟨rest, hpending⟩ := List.head?_eq_some_iff.mp hhead
    obtain ⟨hgateway, hlifetime⟩ : e.gateway = f.gateway ∧ e.remainingLifetimeMs checked ≤ 0 := by
      simpa using hdue
    refine ⟨⟨f, List.mem_of_getElem? hf, by simp [hpending]⟩, ?_⟩
    simp only [DropQueue.react, hf, hpending] at hstep
    split at hstep
    · next heq _ =>
      cases heq
      split_ifs at hstep
      cases hstep
      rw [DropQueue.attempt, if_neg (not_not.mpr hgateway), if_pos hlifetime]
      exact ⟨rfl, .expired, List.Perm.of_eq (reports_handed s [e.unmarked])⟩
    · cases hstep
  | settled i outcome =>
    rw [reportedBy] at hreported
    split_ifs at hreported with hreport
    obtain ⟨f, hf, hhead⟩ := Option.bind_eq_some_iff.mp hreported
    obtain ⟨rest, hpending⟩ := List.head?_eq_some_iff.mp hhead
    obtain ⟨r, hr⟩ := Option.isSome_iff_exists.mp hreport
    refine ⟨⟨f, List.mem_of_getElem? hf, by simp [hpending]⟩, ?_⟩
    simp only [DropQueue.react, hf, hpending] at hstep
    split at hstep
    · next heq _ =>
      cases heq
      cases hstep
      have hlog := reports_settled s e.unmarked outcome
      rw [hr] at hlog
      obtain ⟨henqueued, hreports⟩ := settle_logs (s := s) i f e rest outcome
      refine ⟨henqueued, r, ?_⟩
      rw [hreports]
      exact hlog
    · cases hstep

/-- Each enqueued drop is reported once, when it leaves the storage, as long as what is
reported from a snapshot is still stored; a report of what is not is its second. -/
theorem one_report_each (h : system.ReachableUnder (fun s event => s.reportsStored event = true) s) :
    (∀ e ∈ s.enqueued, (e ∈ s.storage.map PendingDrop.unmarked ∧ s.reportsOf e = []) ∨
      (e ∉ s.storage.map PendingDrop.unmarked ∧ ∃ report, s.reportsOf e = [report])) ∧
    ∀ event s', s.step event = some s' → s.reportsStored event = false →
      ∃ e ∈ s'.enqueued, (s'.reportsOf e).length = 2 := by
  have hs := conserved h
  have haccounted := accounted h
  constructor
  · intro e he
    have hcount := haccounted.count hs he
    by_cases hstored : e ∈ s.storage.map PendingDrop.unmarked
    · have hpos := List.count_pos_iff.mpr hstored
      exact .inl ⟨hstored, List.length_eq_zero_iff.mp (by omega)⟩
    · have hzero := List.count_eq_zero.mpr hstored
      exact .inr ⟨hstored, List.length_eq_one_iff.mp (by omega)⟩
  · intro event s' hstep hcondition
    obtain ⟨hclock, hreact⟩ := step_eq_some hstep
    cases hreported : s.reportedBy event.1 with
    | none => simp [reportsStored, hreported] at hcondition
    | some e =>
      rw [reportsStored, hreported] at hcondition
      obtain ⟨⟨f, hf, hpending⟩, henqueued, r, hreports⟩ := reports_of_reportedBy (s := { s with clock := event.2 }) hreported hreact
      have he : e.unmarked ∈ s.enqueued := hs.snapshots f hf e hpending
      refine ⟨e.unmarked, henqueued ▸ he, ?_⟩
      -- the entry is not stored, so it has been reported before
      have hgone : e.unmarked ∉ s.storage.map PendingDrop.unmarked := by
        intro hmem
        obtain ⟨e', he', hsame⟩ := List.mem_map.mp hmem
        have hid : e'.unmarked.queueId = e.unmarked.queueId := congrArg PendingDrop.queueId hsame
        exact Bool.eq_false_iff.mp hcondition (List.any_eq_true.mpr ⟨e', he', decide_eq_true hid⟩)
      have hcount := haccounted.count hs he
      rw [List.count_eq_zero.mpr hgone, length_reportsOf] at hcount
      have hlog := (hreports.map Prod.fst).count_eq e.unmarked
      rw [List.map_append, List.count_append, List.map_singleton, List.count_singleton_self] at hlog
      rw [length_reportsOf, hlog]
      have hbefore : (s.reports.map Prod.fst).count e.unmarked = 1 := by omega
      exact congrArg (· + 1) hbefore

/-- A published drop is reported once, and one that is throttled not yet. -/
theorem one_report_each_tabs :
    ∃ s, system.ReachableUnder (fun s event => s.reportsStored event = true) s ∧
      s.enqueued.map s.reportsOf = [[.published], []] ∧
      ∀ e ∈ s.enqueued, (e ∈ s.storage.map PendingDrop.unmarked ∧ s.reportsOf e = []) ∨
        (e ∉ s.storage.map PendingDrop.unmarked ∧ ∃ report, s.reportsOf e = [report]) := by
  have hrun : ((system.runUnder (fun s event => s.reportsStored event) ⟨[], 0, [], [], [], [], []⟩
      [(.enqueue (notice "ice") "q1" 0, 1), (.enqueue (notice "rocks") "q2" 1, 2), (.flushStarted "box", 3),
        (.flushStarted "box", 3), (.attempt 0 4, 4), (.attempt 1 4, 5), (.attempt 1 6, 6),
        (.settled 0 .succeeded, 7), (.attempt 0 7, 8), (.settled 1 (.failed (some 429)), 9)]).map
      fun s => s.enqueued.map s.reportsOf) = some [[.published], []] := by
    decide
  obtain ⟨s, hs, hreports⟩ := Option.map_eq_some_iff.mp hrun
  have hreach : system.ReachableUnder (fun s event => s.reportsStored event = true) s :=
    System.reachableUnder_of_runUnder ⟨_, rfl⟩ hs
  exact ⟨s, hreach, hreports, (one_report_each hreach).1⟩

/-- Two tabs take their snapshots just before the lifetime of a drop ends, and both
report it expired. -/
theorem expired_twice :
    ¬∀ s, system.ReachableUnder (fun s event => s.prompt event = true) s → ∀ e ∈ s.enqueued,
      (e ∈ s.storage.map PendingDrop.unmarked ∧ s.reportsOf e = []) ∨
        (e ∉ s.storage.map PendingDrop.unmarked ∧ ∃ report, s.reportsOf e = [report]) := by
  intro hclaim
  have hrun : ((system.runUnder (fun s event => s.prompt event) ⟨[], 0, [], [], [], [], []⟩
      [(.enqueue (notice "ice") "q1" 0, 0), (.flushStarted "box", pendingDropMaxAgeMs - 1),
        (.flushStarted "box", pendingDropMaxAgeMs - 1), (.attempt 0 pendingDropMaxAgeMs, pendingDropMaxAgeMs),
        (.attempt 1 pendingDropMaxAgeMs, pendingDropMaxAgeMs)]).map
      fun s => s.enqueued.map s.reportsOf) = some [[.expired, .expired]] := by
    decide
  obtain ⟨s, hs, hreports⟩ := Option.map_eq_some_iff.mp hrun
  have hreach : system.ReachableUnder (fun s event => s.prompt event = true) s :=
    System.reachableUnder_of_runUnder ⟨_, rfl⟩ hs
  obtain ⟨e, he, htwice⟩ : ∃ e ∈ s.enqueued, s.reportsOf e = [.expired, .expired] :=
    List.mem_map.mp (hreports ▸ List.mem_cons_self)
  rcases hclaim s hreach e he with ⟨-, hnone⟩ | ⟨-, report, hone⟩
  · cases htwice.symm.trans hnone
  · cases htwice.symm.trans hone

end DropQueue
end Arald
