import Arald.Foundations.SlidingCap
import Arald.Foundations.Tables
import Arald.Maps.TileService

/-!
# Limits of the tile service

The counters of the service count its builds, in whatever order its events come:
`running` those that have a slot, `inProgress` those whose request is not over.
A build is in flight until its outcome is published, and its callers get this
outcome.
-/

namespace Arald

open Foundations

/-- What is known of a build from the queue, the builds in flight and the calls. -/
structure Build.Fits (waiting : List ℕ) (inflight : OrderedMap TileIndex ℕ) (calls : List TileCall)
    (id : ℕ) (b : Build) : Prop where
  waiting : id ∈ waiting ↔ b.request.isWaiting = true
  idle : b.request.isWaiting = true → b.hasSlot = false
  inflight : inflight.get? b.tile = some id ↔ b.request.outcome? = none
  called : ∃ call ∈ calls, call.build = id

/-- A caller awaits a build, and has the outcome of this build once it has one. -/
def TileCall.Answered (builds : List Build) (call : TileCall) : Prop :=
  ∃ b, builds[call.build]? = some b ∧ ∀ o, call.answer = some o → b.request.outcome? = some o

namespace TileServiceState

/-- The invariant of the service. -/
structure Sound (limits : TileLimits) (s : TileServiceState) : Prop where
  running : s.running = s.builds.countP Build.hasSlot
  running_le : s.running ≤ limits.concurrency
  inProgress : s.inProgress = s.builds.countP fun b => b.request.isBusy
  waiting_nodup : s.waiting.Nodup
  waiting_le : s.waiting.length ≤ limits.maxQueue
  waiting_lt : ∀ id ∈ s.waiting, id < s.builds.length
  known : ∀ tile id, s.inflight.get? tile = some id → ∃ b, s.builds[id]? = some b ∧ b.tile = tile
  fits : ∀ id (b : Build), s.builds[id]? = some b → b.Fits s.waiting s.inflight s.calls id
  answered : ∀ call ∈ s.calls, call.Answered s.builds
  capped : Capped limits.maxNewPerHour hourMs s.built s.builtAt s.inProgress s.clock

end TileServiceState

/-- The two builds are the same but for what no counter and no caller sees. -/
structure Build.Alike (b b' : Build) : Prop where
  tile : b'.tile = b.tile
  waiting : b'.request.isWaiting = b.request.isWaiting
  busy : b'.request.isBusy = b.request.isBusy
  outcome : b'.request.outcome? = b.request.outcome?

variable {limits : TileLimits} {s s' : TileServiceState} {id : ℕ} {b b' : Build} {tile : TileIndex}

theorem Request.race_alike (failure : Option String) (r : Request) :
    (r.race failure).isWaiting = r.isWaiting ∧ (r.race failure).isBusy = r.isBusy ∧
      (r.race failure).outcome? = r.outcome? := by
  cases r with
  | waiting => exact ⟨rfl, rfl, rfl⟩
  | acquired => exact ⟨rfl, rfl, rfl⟩
  | racing => exact ⟨rfl, rfl, rfl⟩
  | raced failure => exact ⟨rfl, rfl, rfl⟩
  | settled outcome => exact ⟨rfl, rfl, rfl⟩
  | published outcome => exact ⟨rfl, rfl, rfl⟩

theorem TileCall.Answered.set {builds : List Build} {call : TileCall} (h : call.Answered builds)
    (hb : builds[id]? = some b)
    (houtcome : ∀ o, b.request.outcome? = some o → b'.request.outcome? = some o) :
    call.Answered (builds.set id b') := by
  obtain ⟨c, hc, hanswer⟩ := h
  by_cases hid : call.build = id
  · refine ⟨b', ?_, fun o ho => ?_⟩
    · rw [getElem?_set_of_some hb, if_pos hid]
    · rw [hid, hb] at hc
      exact houtcome o (Option.some.inj hc ▸ hanswer o ho)
  · refine ⟨c, ?_, hanswer⟩
    rw [getElem?_set_of_some hb, if_neg hid]
    exact hc

theorem TileCall.Answered.concat {builds : List Build} {call : TileCall} (h : call.Answered builds)
    (b : Build) : call.Answered (builds ++ [b]) := by
  obtain ⟨c, hc, hanswer⟩ := h
  refine ⟨c, ?_, hanswer⟩
  rw [List.getElem?_append_left (List.getElem?_eq_some_iff.mp hc).1]
  exact hc

namespace TileServiceState

/-! ### One build changes -/

theorem Sound.known_set (h : s.Sound limits) (hb : s.builds[id]? = some b) (b' : Build)
    (htile : b'.tile = b.tile) {tile : TileIndex} {i : ℕ} (hi : s.inflight.get? tile = some i) :
    ∃ c, (s.builds.set id b')[i]? = some c ∧ c.tile = tile := by
  obtain ⟨c, hc, hctile⟩ := h.known tile i hi
  by_cases hid : i = id
  · refine ⟨b', ?_, ?_⟩
    · rw [getElem?_set_of_some hb, if_pos hid]
    · rw [hid, hb] at hc
      rw [htile, Option.some.inj hc, hctile]
  · refine ⟨c, ?_, hctile⟩
    rw [getElem?_set_of_some hb, if_neg hid]
    exact hc

/-- What a counter says after one build has changed. -/
theorem count_set (p : Build → Bool) (hb : s.builds[id]? = some b) (b' : Build) :
    ((s.builds.set id b').countP p : ℤ) = s.builds.countP p - (p b).toNat + (p b').toNat := by
  have hcount := countP_set_of_some hb b' p
  omega

/-- A build changes in a way that neither the queue nor the callers nor `inProgress` see; `running`
is up to date with its slot. -/
theorem Sound.change (h : s.Sound limits) (hb : s.builds[id]? = some b) (halike : b.Alike b')
    (hidle : b'.request.isWaiting = true → b'.hasSlot = false) {running : ℤ}
    (hrunning : running = s.running - b.hasSlot.toNat + b'.hasSlot.toNat)
    (hle : running ≤ limits.concurrency) :
    ({ s.setBuild id b' with running } : TileServiceState).Sound limits := by
  have hslot := count_set Build.hasSlot hb b'
  have hbusy := count_set (fun b => b.request.isBusy) hb b'
  refine ⟨?_, hle, ?_, h.waiting_nodup, h.waiting_le, fun i hi => ?_,
    fun tile i hi => h.known_set hb b' halike.tile hi, ?_,
    fun call hcall => (h.answered call hcall).set hb fun o ho => halike.outcome.trans ho, h.capped⟩
  · rw [hrunning, h.running]
    exact hslot.symm
  · rw [halike.busy, sub_add_cancel] at hbusy
    exact h.inProgress.trans hbusy.symm
  · change i < (s.builds.set id b').length
    rw [List.length_set]
    exact h.waiting_lt i hi
  · have hfits := h.fits id b hb
    refine (forall_set hb (P := fun i c => Build.Fits s.waiting s.inflight s.calls i c)).mpr
      ⟨⟨?_, hidle, ?_, hfits.called⟩, fun i c _ hc => h.fits i c hc⟩
    · rw [halike.waiting]
      exact hfits.waiting
    · rw [halike.tile, halike.outcome]
      exact hfits.inflight

theorem Sound.setBuild (h : s.Sound limits) (hb : s.builds[id]? = some b) (halike : b.Alike b')
    (hslot : b'.hasSlot = b.hasSlot) : (s.setBuild id b').Sound limits := by
  have hidle : b'.request.isWaiting = true → b'.hasSlot = false := by
    rw [halike.waiting, hslot]
    exact (h.fits id b hb).idle
  have hrunning : s.running = s.running - b.hasSlot.toNat + b'.hasSlot.toNat := by
    rw [hslot, sub_add_cancel]
  exact h.change hb halike hidle hrunning h.running_le

theorem isWaiting_iff {r : Request} : r.isWaiting = true ↔ r = .waiting := by
  cases r <;> simp [Request.isWaiting]

/-- The first in the queue gets a slot. -/
theorem Sound.wake (h : s.Sound limits) {next : ℕ} {rest : List ℕ} (hwaiting : s.waiting = next :: rest)
    (hb : s.builds[next]? = some b) (hroom : s.running < limits.concurrency) :
    (({ s with waiting := rest, running := s.running + 1 } : TileServiceState).setBuild next
      { b with request := .acquired, slotSince := some s.time }).Sound limits := by
  have hfits := h.fits next b hb
  have hnext : b.request.isWaiting = true := by
    rw [← hfits.waiting, hwaiting]
    exact List.mem_cons_self
  have hreq := isWaiting_iff.mp hnext
  have hnodup := h.waiting_nodup
  rw [hwaiting] at hnodup
  obtain ⟨hnew, hrest⟩ := List.nodup_cons.mp hnodup
  have hslot := count_set Build.hasSlot hb { b with request := .acquired, slotSince := some s.time }
  have hbusy := count_set (fun b => b.request.isBusy) hb
    { b with request := .acquired, slotSince := some s.time }
  refine ⟨?_, ?_, ?_, hrest, ?_, fun i hi => ?_, fun tile i hi => h.known_set hb { b with request := .acquired, slotSince := some s.time } rfl hi,
    ?_, fun call hcall => (h.answered call hcall).set hb fun o ho => ?_, h.capped⟩
  · rw [hfits.idle hnext, Bool.toNat_false, Nat.cast_zero, sub_zero] at hslot
    change s.running + 1 = _
    rw [h.running]
    exact hslot.symm
  · exact hroom
  · rw [hreq] at hbusy
    exact h.inProgress.trans (hbusy.trans (sub_add_cancel _ _)).symm
  · have hle := h.waiting_le
    rw [hwaiting] at hle
    exact (Nat.le_succ _).trans hle
  · change i < (s.builds.set next _).length
    rw [List.length_set]
    exact h.waiting_lt i (hwaiting ▸ List.mem_cons_of_mem next hi)
  · refine (forall_set hb (P := fun i c => Build.Fits rest s.inflight s.calls i c)).mpr
      ⟨⟨iff_of_false hnew Bool.false_ne_true, fun hacquired => ?_, ?_, hfits.called⟩,
        fun i c hi hc => ?_⟩
    · cases hacquired
    · rw [hfits.inflight, hreq]
      rfl
    · have hother := h.fits i c hc
      refine ⟨?_, hother.idle, hother.inflight, hother.called⟩
      rw [← hother.waiting, hwaiting, List.mem_cons, or_iff_right hi]
  · rw [hreq] at ho
    cases ho

/-- A slot that is given back goes to the first in the queue. -/
theorem Sound.release (h : s.Sound limits) (hb : s.builds[id]? = some b) (halike : b.Alike b')
    (hhas : b.hasSlot = true) (hgone : b'.hasSlot = false) :
    (s.setBuild id b').release.Sound limits := by
  have hback : ({ s.setBuild id b' with running := s.running - 1 } : TileServiceState).Sound limits := by
    refine h.change hb halike (fun _ => hgone) ?_ ((sub_le_self _ zero_le_one).trans h.running_le)
    rw [hhas, hgone]
    exact (add_zero _).symm
  have hroom : s.running - 1 < limits.concurrency := (sub_one_lt _).trans_le h.running_le
  unfold TileServiceState.release
  dsimp only
  split
  · exact hback
  · next next rest hwaiting =>
    have hnext : next ∈ (s.setBuild id b').waiting := hwaiting ▸ List.mem_cons_self
    have hc := List.getElem?_eq_getElem (hback.waiting_lt next hnext)
    rw [hc]
    exact hback.wake hwaiting hc hroom

/-- `releaseOnce` gives a slot back at most once. -/
theorem Sound.releaseOnce (h : s.Sound limits) (hb : s.builds[id]? = some b) (halike : b.Alike b')
    (hslot : b'.slotSince = b.slotSince) : (s.releaseOnce id b').Sound limits := by
  have hsame : b'.hasSlot = b.hasSlot := congrArg Option.isSome hslot
  unfold TileServiceState.releaseOnce
  split_ifs with hhas
  · exact h.release hb ⟨halike.tile, halike.waiting, halike.busy, halike.outcome⟩ (hsame ▸ hhas) rfl
  · exact h.setBuild hb halike hsame

/-! ### Requests end -/

/-- The request of a build is over, with an outcome that is not published yet. -/
theorem Sound.settle (h : s.Sound limits) (hb : s.builds[id]? = some b)
    (hracing : b.request.isBusy = true) (hnot : b.request.isWaiting = false)
    (htile : b'.tile = b.tile) (hslot : b'.hasSlot = b.hasSlot) {outcome : TileOutcome}
    (hsettled : b'.request = .settled outcome) {failedAt builtAt built : List ℤ}
    (hcapped : Capped limits.maxNewPerHour hourMs built builtAt (s.inProgress - 1) s.clock) :
    ({ s.setBuild id b' with
      failedAt, builtAt, built, inProgress := s.inProgress - 1 } : TileServiceState).Sound limits := by
  have hslots := count_set Build.hasSlot hb b'
  have hbusy := count_set (fun b => b.request.isBusy) hb b'
  have hnone : b.request.outcome? = none := by
    cases hr : b.request with
    | published o => rw [hr] at hracing; cases hracing
    | _ => rfl
  refine ⟨?_, h.running_le, ?_, h.waiting_nodup, h.waiting_le, fun i hi => ?_,
    fun tile i hi => h.known_set hb b' htile hi, ?_,
    fun call hcall => (h.answered call hcall).set hb fun o ho => ?_, hcapped⟩
  · rw [hslot, sub_add_cancel] at hslots
    exact h.running.trans hslots.symm
  · rw [hracing, hsettled] at hbusy
    change s.inProgress - 1 = _
    rw [h.inProgress]
    exact (hbusy.trans (add_zero _)).symm
  · change i < (s.builds.set id b').length
    rw [List.length_set]
    exact h.waiting_lt i hi
  · have hfits := h.fits id b hb
    refine (forall_set hb (P := fun i c => Build.Fits s.waiting s.inflight s.calls i c)).mpr
      ⟨⟨?_, fun hwaiting => ?_, ?_, hfits.called⟩, fun i c _ hc => h.fits i c hc⟩
    · rw [hfits.waiting, hnot, hsettled]
      rfl
    · rw [hsettled] at hwaiting
      cases hwaiting
    · rw [htile, hfits.inflight, hnone, hsettled]
      rfl
  · rw [hnone] at ho
    cases ho

theorem isBusy_pos (h : s.Sound limits) (hb : s.builds[id]? = some b)
    (hbusy : b.request.isBusy = true) : 0 < s.inProgress := by
  rw [h.inProgress]
  exact Int.natCast_pos.mpr (countP_pos_of_some hb hbusy)

theorem Sound.finish (h : s.Sound limits) (hb : s.builds[id]? = some b)
    (hracing : b.request.isBusy = true) (hnot : b.request.isWaiting = false)
    (htile : b'.tile = b.tile) (hslot : b'.hasSlot = b.hasSlot) (failure : Option String) (disk : Disk) :
    (s.finish id b' failure disk).Sound limits := by
  have hpos := isBusy_pos h hb hracing
  have hfail : ∀ message, Sound limits { s.setBuild id
      { b' with request := .settled (.error ⟨502, message, none⟩) } with
      failedAt := s.failedAt ++ [s.clock], inProgress := s.inProgress - 1 } := by
    intro message
    refine h.settle hb hracing hnot ?_ ?_ rfl h.capped.abandon
    · exact htile
    · exact hslot
  have hsucceed : ∀ outcome, Sound limits { s.setBuild id { b' with request := .settled outcome } with
      inProgress := s.inProgress - 1, builtAt := s.builtAt ++ [s.clock],
      built := s.built ++ [s.clock] } := by
    intro outcome
    refine h.settle hb hracing hnot ?_ ?_ rfl (h.capped.finish hpos)
    · exact htile
    · exact hslot
  unfold TileServiceState.finish
  cases failure with
  | some message => exact hfail _
  | none =>
    cases disk with
    | putFails message => exact hfail _
    | readFails message => exact hsucceed _
    | read data => exact hsucceed _

/-- The outcome is published, and the tile is no longer in flight. -/
theorem Sound.forget (h : s.Sound limits) (hb : s.builds[id]? = some b) {outcome : TileOutcome}
    (hsettled : b.request = .settled outcome) :
    ({ s.setBuild id { b with request := .published outcome } with
      inflight := s.inflight.delete b.tile } : TileServiceState).Sound limits := by
  have hfits := h.fits id b hb
  have hflying : s.inflight.get? b.tile = some id := hfits.inflight.mpr (by rw [hsettled]; rfl)
  have hslots := count_set Build.hasSlot hb { b with request := .published outcome }
  have hbusy := count_set (fun b => b.request.isBusy) hb { b with request := .published outcome }
  refine ⟨?_, h.running_le, ?_, h.waiting_nodup, h.waiting_le, fun i hi => ?_,
    fun tile i hi => ?_, ?_, fun call hcall => (h.answered call hcall).set hb fun o ho => ?_, h.capped⟩
  · exact h.running.trans (hslots.trans (sub_add_cancel _ _)).symm
  · rw [hsettled] at hbusy
    exact h.inProgress.trans (hbusy.trans (sub_add_cancel _ _)).symm
  · change i < (s.builds.set id _).length
    rw [List.length_set]
    exact h.waiting_lt i hi
  · rw [OrderedMap.get?_delete] at hi
    split_ifs at hi
    exact h.known_set hb { b with request := .published outcome } rfl hi
  · refine (forall_set hb (P := fun i c =>
      Build.Fits s.waiting (s.inflight.delete b.tile) s.calls i c)).mpr
        ⟨⟨?_, fun hwaiting => ?_, ?_, hfits.called⟩, fun i c hi hc => ?_⟩
    · rw [hfits.waiting, hsettled]
      rfl
    · cases hwaiting
    · rw [OrderedMap.get?_delete_self]
      exact iff_of_false (Option.some_ne_none id).symm (Option.some_ne_none outcome)
    · have hother := h.fits i c hc
      refine ⟨hother.waiting, hother.idle, ?_, hother.called⟩
      rw [OrderedMap.get?_delete]
      split_ifs with htile
      · -- the tile was in flight for this build alone
        have hgone : c.request.outcome? ≠ none := by
          intro hnone
          have hsame := hother.inflight.mpr hnone
          rw [htile, hflying] at hsame
          exact hi (Option.some.inj hsame).symm
        exact iff_of_false not_false hgone
      · exact hother.inflight
  · rw [hsettled] at ho
    cases ho

/-! ### Calls -/

/-- A tile that is not in flight gets a new build, and its caller awaits it. -/
theorem Sound.start (h : s.Sound limits) (hnone : s.inflight.get? b.tile = none)
    (houtcome : b.request.outcome? = none)
    (hidle : b.request.isWaiting = true → b.hasSlot = false) {waiting : List ℕ}
    {builtAt failedAt : List ℤ} {running inProgress : ℤ}
    (hwaiting : waiting = if b.request.isWaiting then s.waiting ++ [s.builds.length] else s.waiting)
    (hwaiting_le : waiting.length ≤ limits.maxQueue)
    (hrunning : running = s.running + b.hasSlot.toNat) (hrunning_le : running ≤ limits.concurrency)
    (hinProgress : inProgress = s.inProgress + b.request.isBusy.toNat)
    (hcapped : Capped limits.maxNewPerHour hourMs s.built builtAt inProgress s.clock) :
    ({ s with
      running, inProgress, waiting, builtAt, failedAt
      builds := s.builds ++ [b]
      inflight := s.inflight.set b.tile s.builds.length
      calls := s.calls ++ [{ build := s.builds.length }] } : TileServiceState).Sound limits := by
  have hcount : ∀ p : Build → Bool,
      ((s.builds ++ [b]).countP p : ℤ) = s.builds.countP p + (p b).toNat := by
    intro p
    rw [List.countP_append, List.countP_singleton, Nat.cast_add]
    cases p b <;> rfl
  have hnew : s.builds.length ∉ s.waiting := fun hmem => (h.waiting_lt _ hmem).false
  have hmem : ∀ i, i ∈ waiting ↔
      i ∈ s.waiting ∨ b.request.isWaiting = true ∧ i = s.builds.length := by
    intro i
    rw [hwaiting]
    split_ifs with hw
    · rw [List.mem_append, List.mem_singleton, and_iff_right hw]
    · rw [or_iff_left fun hi => hw hi.1]
  refine ⟨?_, hrunning_le, ?_, ?_, hwaiting_le, fun i hi => ?_, fun tile i hi => ?_, ?_,
    fun call hcall => ?_, hcapped⟩
  · exact hrunning.trans ((congrArg (· + _) h.running).trans (hcount Build.hasSlot).symm)
  · exact hinProgress.trans ((congrArg (· + _) h.inProgress).trans
      (hcount fun b => b.request.isBusy).symm)
  · change waiting.Nodup
    rw [hwaiting]
    split_ifs
    · exact List.nodup_append.mpr ⟨h.waiting_nodup, List.nodup_singleton _, fun i hi j hj heq =>
        hnew (List.mem_singleton.mp hj ▸ heq ▸ hi)⟩
    · exact h.waiting_nodup
  · change i < (s.builds ++ [b]).length
    rw [List.length_append, List.length_singleton]
    rcases (hmem i).mp hi with hi | ⟨-, rfl⟩
    · exact (h.waiting_lt i hi).trans (Nat.lt_succ_self _)
    · exact Nat.lt_succ_self _
  · change ∃ c, (s.builds ++ [b])[i]? = some c ∧ c.tile = tile
    rw [OrderedMap.get?_set] at hi
    split_ifs at hi with htile
    · rw [← Option.some.inj hi]
      exact ⟨b, List.getElem?_concat_length, htile.symm⟩
    · obtain ⟨c, hc, hctile⟩ := h.known tile i hi
      refine ⟨c, ?_, hctile⟩
      rw [List.getElem?_append_left (List.getElem?_eq_some_iff.mp hc).1]
      exact hc
  · refine (forall_concat (P := fun i c => Build.Fits waiting
      (s.inflight.set b.tile s.builds.length) (s.calls ++ [{ build := s.builds.length }]) i c)).mpr
        ⟨fun i c hc => ?_, ?_, hidle, ?_, ?_⟩
    · have hother := h.fits i c hc
      have hne : i ≠ s.builds.length := (List.getElem?_eq_some_iff.mp hc).1.ne
      refine ⟨?_, hother.idle, ?_, ?_⟩
      · rw [hmem, or_iff_left fun hi => hne hi.2]
        exact hother.waiting
      · rw [OrderedMap.get?_set]
        split_ifs with htile
        · have hgone : c.request.outcome? ≠ none := by
            intro hflying
            have hsome := hother.inflight.mpr hflying
            rw [htile, hnone] at hsome
            cases hsome
          exact iff_of_false (fun heq => hne (Option.some.inj heq).symm) hgone
        · exact hother.inflight
      · obtain ⟨call, hcall, hid⟩ := hother.called
        exact ⟨call, List.mem_append_left _ hcall, hid⟩
    · rw [hmem, or_iff_right hnew, and_iff_left rfl]
    · rw [OrderedMap.get?_set_self]
      exact iff_of_true rfl houtcome
    · exact ⟨_, List.mem_append_right _ (List.mem_singleton.mpr rfl), rfl⟩
  · rcases List.mem_append.mp hcall with hcall | hcall
    · exact (h.answered call hcall).concat b
    · rw [List.mem_singleton.mp hcall]
      exact ⟨b, List.getElem?_concat_length, fun o ho => absurd ho.symm (Option.some_ne_none o)⟩

/-- A caller of a tile in flight joins its build. -/
theorem Sound.join (h : s.Sound limits) (hflying : s.inflight.get? tile = some id) :
    ({ s with calls := s.calls ++ [{ build := id }] } : TileServiceState).Sound limits := by
  refine ⟨h.running, h.running_le, h.inProgress, h.waiting_nodup, h.waiting_le, h.waiting_lt, h.known,
    fun i c hc => ?_, fun call hcall => ?_, h.capped⟩
  · have hfits := h.fits i c hc
    refine ⟨hfits.waiting, hfits.idle, hfits.inflight, ?_⟩
    obtain ⟨call, hcall, hid⟩ := hfits.called
    exact ⟨call, List.mem_append_left _ hcall, hid⟩
  · rcases List.mem_append.mp hcall with hcall | hcall
    · exact h.answered call hcall
    · obtain ⟨c, hc, -⟩ := h.known tile id hflying
      rw [List.mem_singleton.mp hcall]
      exact ⟨c, hc, fun o ho => absurd ho.symm (Option.some_ne_none o)⟩

/-- What a build that is not refused may count on. -/
theorem refusal_eq_none (h : s.refusal limits = none) :
    s.builtAt.length + s.inProgress < limits.maxNewPerHour ∧
      (limits.concurrency ≤ s.running → s.waiting.length < limits.maxQueue) := by
  rw [refusal] at h
  split_ifs at h with hcap hfailed hqueue
  refine ⟨not_le.mp hcap, fun hfull => ?_⟩
  exact not_le.mp fun hlong => hqueue ⟨hfull, hlong⟩

theorem Sound.get (h : s.Sound limits) (tile : TileIndex) : (s.get limits tile).Sound limits := by
  unfold TileServiceState.get
  cases hflying : s.inflight.get? tile with
  | some id => exact h.join hflying
  | none =>
    dsimp only
    unfold TileServiceState.build
    dsimp only
    have hpruned := h.capped.prune
    cases hrefusal : TileServiceState.refusal limits
        { s with builtAt := prune s.clock s.builtAt, failedAt := prune s.clock s.failedAt } with
    | some error =>
      refine h.start (b := { tile, request := .settled (.error error) }) hflying rfl
        (fun hw => absurd hw Bool.false_ne_true) rfl h.waiting_le (add_zero _).symm h.running_le
        (add_zero _).symm hpruned
    | none =>
      obtain ⟨hcap, hqueue⟩ := refusal_eq_none hrefusal
      have hallowed := hpruned.allow hcap
      dsimp only
      unfold TileServiceState.acquire
      split_ifs with hfree
      · exact h.start (b := { tile, request := .acquired, slotSince := some s.time }) hflying rfl
          (fun hw => absurd hw Bool.false_ne_true) rfl h.waiting_le rfl hfree rfl hallowed
      · refine h.start (b := { tile, request := .waiting }) hflying rfl (fun _ => rfl) rfl ?_
          (add_zero _).symm h.running_le rfl hallowed
        rw [List.length_append, List.length_singleton]
        exact hqueue (not_lt.mp hfree)

/-- A caller gets the outcome of its build. -/
theorem Sound.answer (h : s.Sound limits) {i : ℕ} {call : TileCall} {outcome : TileOutcome}
    (hcall : s.calls[i]? = some call) (hb : s.builds[call.build]? = some b)
    (houtcome : b.request.outcome? = some outcome) :
    ({ s with
      calls := s.calls.set i { call with answer := some outcome } } : TileServiceState).Sound
        limits := by
  refine ⟨h.running, h.running_le, h.inProgress, h.waiting_nodup, h.waiting_le, h.waiting_lt, h.known,
    fun id c hc => ?_, fun call' hcall' => ?_, h.capped⟩
  · have hfits := h.fits id c hc
    refine ⟨hfits.waiting, hfits.idle, hfits.inflight, ?_⟩
    obtain ⟨call', hmem, hid⟩ := hfits.called
    obtain ⟨j, hj⟩ := List.getElem?_of_mem hmem
    by_cases hji : j = i
    · refine ⟨{ call with answer := some outcome }, ?_, ?_⟩
      · exact List.mem_set (List.getElem?_eq_some_iff.mp hcall).1 _
      · rw [hji, hcall] at hj
        rw [← hid, ← Option.some.inj hj]
    · refine ⟨call', List.mem_of_getElem? (i := j) ?_, hid⟩
      rw [getElem?_set_of_some hcall, if_neg hji]
      exact hj
  · rcases List.mem_or_eq_of_mem_set hcall' with hmem | rfl
    · exact h.answered call' hmem
    · refine ⟨b, hb, fun o ho => ?_⟩
      rw [← Option.some.inj ho]
      exact houtcome

/-! ### Runs -/

theorem alike_race (failure : Option String) {b' : Build} (htile : b'.tile = b.tile)
    (hrequest : b'.request = b.request.race failure) : b.Alike b' := by
  obtain ⟨hwaiting, hbusy, houtcome⟩ := b.request.race_alike failure
  exact ⟨htile, hrequest ▸ hwaiting, hrequest ▸ hbusy, hrequest ▸ houtcome⟩

theorem Sound.stepBuild (h : s.Sound limits) (hb : s.builds[id]? = some b) {event : BuildEvent}
    (hs' : s.stepBuild limits id b event = some s') : s'.Sound limits := by
  cases event with
  | begin =>
    rw [TileServiceState.stepBuild] at hs'
    split at hs'
    · next hacquired =>
      rw [← Option.some.inj hs']
      refine h.setBuild hb ⟨rfl, ?_, ?_, ?_⟩ rfl
      · rw [hacquired]; rfl
      · rw [hacquired]; rfl
      · rw [hacquired]; rfl
    · cases hs'
  | settle failure =>
    rw [TileServiceState.stepBuild] at hs'
    split at hs'
    · rw [← Option.some.inj hs']
      exact h.setBuild hb (alike_race failure rfl rfl) rfl
    · cases hs'
  | timeout =>
    rw [TileServiceState.stepBuild] at hs'
    split_ifs at hs'
    rw [← Option.some.inj hs']
    exact h.setBuild hb (alike_race _ rfl rfl) rfl
  | fallback =>
    rw [TileServiceState.stepBuild] at hs'
    split_ifs at hs'
    rw [← Option.some.inj hs']
    exact h.releaseOnce hb ⟨rfl, rfl, rfl, rfl⟩ rfl
  | release =>
    rw [TileServiceState.stepBuild] at hs'
    split at hs'
    · rw [← Option.some.inj hs']
      exact h.releaseOnce hb ⟨rfl, rfl, rfl, rfl⟩ rfl
    · cases hs'
  | resume disk =>
    rw [TileServiceState.stepBuild] at hs'
    split at hs'
    · next failure hraced =>
      rw [← Option.some.inj hs']
      refine h.finish hb ?_ ?_ ?_ ?_ failure disk
      · rw [hraced]; rfl
      · rw [hraced]; rfl
      · rfl
      · rfl
    · cases hs'
  | forget =>
    rw [TileServiceState.stepBuild] at hs'
    split at hs'
    · next outcome hsettled =>
      rw [← Option.some.inj hs']
      exact h.forget hb hsettled
    · cases hs'

theorem Sound.step (h : s.Sound limits) {event : TileEvent} (hs' : s.step limits event = some s') :
    s'.Sound limits := by
  cases event with
  | get tile cached =>
    rw [TileServiceState.step] at hs'
    split_ifs at hs'
    · rw [← Option.some.inj hs']
      exact h
    · rw [← Option.some.inj hs']
      exact h.get tile
  | on id event =>
    obtain ⟨b, hb, hs'⟩ := Option.bind_eq_some_iff.mp hs'
    exact h.stepBuild hb hs'
  | answer i =>
    obtain ⟨call, hcall, hs'⟩ := Option.bind_eq_some_iff.mp hs'
    obtain ⟨b, hb, hs'⟩ := Option.bind_eq_some_iff.mp hs'
    obtain ⟨outcome, houtcome, hs'⟩ := Option.bind_eq_some_iff.mp hs'
    rw [← Option.some.inj hs']
    exact h.answer hcall hb houtcome
  | advance time clock =>
    rw [TileServiceState.step] at hs'
    split_ifs at hs' with hlater
    rw [← Option.some.inj hs']
    exact ⟨h.running, h.running_le, h.inProgress, h.waiting_nodup, h.waiting_le, h.waiting_lt, h.known,
      h.fits, h.answered, h.capped.advance hlater.2⟩

theorem sound_init (limits : TileLimits) (clock : ℤ) :
    ({ clock } : TileServiceState).Sound limits := by
  refine ⟨rfl, Nat.cast_nonneg _, rfl, List.nodup_nil, Nat.zero_le _, fun i hi => ?_, fun tile i hi => ?_,
    fun i b hb => ?_, fun call hcall => ?_, Capped.start _ _ _⟩
  · cases hi
  · cases hi
  · cases hb
  · cases hcall

end TileServiceState

theorem tileService_sound (h : (tileService limits).Reachable s) : s.Sound limits := by
  refine h.invariant (fun s hinit => ?_) fun s e s' hs _ hstep => hs.step hstep
  obtain ⟨clock, rfl⟩ := hinit
  exact TileServiceState.sound_init limits clock

/-- A build whose outcome is not published yet. -/
def Build.InFlight (b : Build) : Prop := b.request.outcome? = none

/-- However calls, builds, failures and timers interleave: the slots in use are those that builds
hold, at most `concurrency`, the queue is at most `maxQueue` long, a tile has at most one build in
flight and a call for it joins this build, at most `maxNewPerHour` tiles are built in any hour,
callers of one build get one outcome, and nothing is in progress when every caller has one. -/
theorem tile_service_limits (h : (tileService limits).Reachable s) :
    (0 ≤ s.running ∧ s.running = s.builds.countP Build.hasSlot ∧ s.running ≤ limits.concurrency) ∧
      s.waiting.length ≤ limits.maxQueue ∧
      (∀ (i j : ℕ) (b c : Build), s.builds[i]? = some b → s.builds[j]? = some c → b.InFlight → c.InFlight →
        b.tile = c.tile → i = j) ∧
      (∀ (i : ℕ) (b : Build), s.builds[i]? = some b → b.InFlight →
        s.get limits b.tile = { s with calls := s.calls ++ [{ build := i }] }) ∧
      (∀ first, s.built.countP (fun t => first ≤ t ∧ t < first + hourMs) ≤ limits.maxNewPerHour) ∧
      (∀ call ∈ s.calls, ∀ call' ∈ s.calls, call.build = call'.build → ∀ o o',
        call.answer = some o → call'.answer = some o' → o = o') ∧
      ((∀ call ∈ s.calls, call.answer ≠ none) → s.inProgress = 0) := by
  have hsound := tileService_sound h
  have hflying : ∀ (i : ℕ) (b : Build), s.builds[i]? = some b → b.InFlight →
      s.inflight.get? b.tile = some i := fun i b hb hin => (hsound.fits i b hb).inflight.mpr hin
  refine ⟨⟨?_, hsound.running, hsound.running_le⟩, hsound.waiting_le, fun i j b c hb hc hbin hcin htile => ?_,
    fun i b hb hin => ?_, hsound.capped.within, fun call hcall call' hcall' hsame o o' ho ho' => ?_,
    fun hanswered => ?_⟩
  · rw [hsound.running]
    exact Nat.cast_nonneg _
  · have hi := hflying i b hb hbin
    rw [htile, hflying j c hc hcin] at hi
    exact (Option.some.inj hi).symm
  · rw [TileServiceState.get, hflying i b hb hin]
  · obtain ⟨b, hb, hanswer⟩ := hsound.answered call hcall
    obtain ⟨c, hc, hanswer'⟩ := hsound.answered call' hcall'
    rw [hsame, hc] at hb
    obtain rfl := Option.some.inj hb
    exact Option.some.inj ((hanswer o ho).symm.trans (hanswer' o' ho'))
  · rw [hsound.inProgress, Nat.cast_eq_zero, List.countP_eq_zero]
    intro b hb hbusy
    obtain ⟨i, hi⟩ := List.getElem?_of_mem hb
    obtain ⟨call, hcall, rfl⟩ := (hsound.fits i b hi).called
    obtain ⟨c, hc, hanswer⟩ := hsound.answered call hcall
    obtain ⟨o, ho⟩ := Option.ne_none_iff_exists'.mp (hanswered call hcall)
    have hpublished := hanswer o ho
    rw [hi] at hc
    obtain rfl := Option.some.inj hc
    cases hr : b.request with
    | published o' => rw [hr] at hbusy; cases hbusy
    | _ => rw [hr] at hpublished; cases hpublished

/-- One slot and room for one more: the first tile is built while the second waits, two callers
share it, and the second gets the slot. -/
theorem tile_service_limits_queue :
    ∃ s, (tileService ⟨1, 1, 10, 1000, Nat.one_pos⟩).Reachable s ∧ s.running = 1 ∧
      s.waiting = [] ∧ s.builds.map Build.hasSlot = [false, true] ∧ s.built = [5] ∧
      s.running ≤ (1 : ℕ) := by
  have hrun : (((tileService ⟨1, 1, 10, 1000, Nat.one_pos⟩).run { clock := 0 }
      [.get ⟨760, 200⟩ false, .get ⟨761, 200⟩ false, .get ⟨760, 200⟩ false, .on 0 .begin,
        .advance 5 5, .on 0 (.settle none), .on 0 .release, .on 0 (.resume (.read [])),
        .on 0 .forget, .answer 0, .answer 2]).map fun s =>
      (s.running, s.waiting, s.builds.map Build.hasSlot, s.built)) =
        some (1, [], [false, true], [5]) := by
    decide +kernel
  obtain ⟨s, hs, hlog⟩ := Option.map_eq_some_iff.mp hrun
  simp only [Prod.mk.injEq] at hlog
  obtain ⟨hrunning, hwaiting, hslots, hbuilt⟩ := hlog
  have hreach := System.reachable_of_run (S := tileService ⟨1, 1, 10, 1000, Nat.one_pos⟩) ⟨0, rfl⟩ hs
  exact ⟨s, hreach, hrunning, hwaiting, hslots, hbuilt, (tile_service_limits hreach).1.2.2⟩

end Arald
