import Arald.Maps.TileServiceRuns

/-!
# Slots of the tile service

When callbacks run before the clock moves on and timers fire when they are due, a
slot is kept exactly as long as the work underneath: a request that runs out of
time ends, its work keeps the slot. So no more sources are at work than there
are slots, and a slot is held no longer than the slowest source.
-/

namespace Arald

open Foundations

variable {limits : TileLimits} {s s' : TileServiceState} {id time : ℕ} {b : Build}

def Work.isRunning : Work → Bool
  | .running _ => true
  | _ => false

/-- The slot of a build that has begun is kept until its work is done. -/
def Build.KeepsSlot (b : Build) : Prop :=
  (∃ a, b.slotSince = some a ∧ (b.work = .running a ∨ b.work = .done)) ∨
    b.slotSince = none ∧ (b.work = .done ∨ b.work = .idle)

/-- A race that began at `a` is decided before its fallback is due. -/
def Build.Decides (limits : TileLimits) (time a : ℕ) (b : Build) : Prop :=
  b.fallback = some (a + limits.buildTimeoutMs * 2) ∧ time ≤ a + limits.buildTimeoutMs

/-- Where a build stands at a time when nothing is late. -/
def Build.OnTime (limits : TileLimits) (time : ℕ) (b : Build) : Prop :=
  match b.request with
  | .waiting => b.slotSince = none ∧ b.work = .idle ∧ b.timeout = none ∧ b.fallback = none
  | .acquired => b.slotSince = some time ∧ b.work = .idle ∧ b.timeout = none ∧ b.fallback = none
  | .racing => ∃ a, b.slotSince = some a ∧ b.work = .running a ∧
      b.timeout = some (a + limits.buildTimeoutMs) ∧ b.Decides limits time a
  | .raced _ => b.KeepsSlot ∧ ∃ a, b.Decides limits time a
  | .settled _ => b.KeepsSlot ∧ b.timeout = none ∧ b.fallback = none
  | .published _ => b.KeepsSlot ∧ b.timeout = none ∧ b.fallback = none

/-- Nothing is left to do for the build before the clock moves on to `time`. -/
def Build.isPrompt (time : ℕ) (b : Build) : Bool :=
  (match b.request with
    | .acquired => false
    | .raced _ => false
    | _ => true) &&
  (match b.work with
    | .done => !b.hasSlot
    | _ => true) &&
  b.timeout.all (fun due => time ≤ due) && b.fallback.all fun due => time ≤ due

/-- The work of the build, if it is still running at `time`, began at most twice the limit before. -/
def Build.isSettling (limits : TileLimits) (time : ℕ) (b : Build) : Bool :=
  match b.work with
  | .running since => time ≤ since + limits.buildTimeoutMs * 2
  | _ => true

namespace TileServiceState

/-- The clock moves on when nothing is left to do. -/
def onTime (s : TileServiceState) : TileEvent → Bool
  | .advance time _ => s.builds.all (Build.isPrompt time)
  | _ => true

/-- The same, and no source takes longer than twice the limit. -/
def settles (limits : TileLimits) (s : TileServiceState) (event : TileEvent) : Bool :=
  s.onTime event &&
    match event with
    | .advance time _ => s.builds.all (Build.isSettling limits time)
    | _ => true

/-! ### Builds on time -/

theorem keepsSlot_race (failure : Option String) (h : b.OnTime limits time) {since : ℕ}
    (hwork : b.work = .running since) :
    ({ b with work := .done, request := b.request.race failure } : Build).OnTime limits time := by
  unfold Build.OnTime at h ⊢
  cases hr : b.request with
  | waiting =>
    rw [hr] at h
    rw [h.2.1] at hwork
    cases hwork
  | acquired =>
    rw [hr] at h
    rw [h.2.1] at hwork
    cases hwork
  | racing =>
    rw [hr] at h
    obtain ⟨a, hslot, -, -, hdecides⟩ := h
    exact ⟨Or.inl ⟨a, hslot, Or.inr rfl⟩, a, hdecides⟩
  | raced failure =>
    rw [hr] at h
    obtain ⟨hkeeps, hdecides⟩ := h
    refine ⟨?_, hdecides⟩
    rcases hkeeps with ⟨a, hslot, -⟩ | ⟨hslot, -⟩
    · exact Or.inl ⟨a, hslot, Or.inr rfl⟩
    · exact Or.inr ⟨hslot, Or.inl rfl⟩
  | settled outcome =>
    rw [hr] at h
    obtain ⟨hkeeps, htimers⟩ := h
    refine ⟨?_, htimers⟩
    rcases hkeeps with ⟨a, hslot, -⟩ | ⟨hslot, -⟩
    · exact Or.inl ⟨a, hslot, Or.inr rfl⟩
    · exact Or.inr ⟨hslot, Or.inl rfl⟩
  | published outcome =>
    rw [hr] at h
    obtain ⟨hkeeps, htimers⟩ := h
    refine ⟨?_, htimers⟩
    rcases hkeeps with ⟨a, hslot, -⟩ | ⟨hslot, -⟩
    · exact Or.inl ⟨a, hslot, Or.inr rfl⟩
    · exact Or.inr ⟨hslot, Or.inl rfl⟩

theorem onTime_timeout (failure : Option String) (h : b.OnTime limits time) :
    ({ b with timeout := none, request := b.request.race failure } : Build).OnTime limits time := by
  unfold Build.OnTime at h ⊢
  cases hr : b.request with
  | waiting =>
    rw [hr] at h
    exact ⟨h.1, h.2.1, rfl, h.2.2.2⟩
  | acquired =>
    rw [hr] at h
    exact ⟨h.1, h.2.1, rfl, h.2.2.2⟩
  | racing =>
    rw [hr] at h
    obtain ⟨a, hslot, hwork, -, hdecides⟩ := h
    exact ⟨Or.inl ⟨a, hslot, Or.inl hwork⟩, a, hdecides⟩
  | raced failure =>
    rw [hr] at h
    exact h
  | settled outcome =>
    rw [hr] at h
    exact ⟨h.1, rfl, h.2.2⟩
  | published outcome =>
    rw [hr] at h
    exact ⟨h.1, rfl, h.2.2⟩

/-- No fallback is ever due. -/
theorem not_due (hlimit : 0 < limits.buildTimeoutMs) (h : b.OnTime limits time) {due : ℕ}
    (hdue : b.fallback = some due) : time < due := by
  have hdecides : ∀ a, b.Decides limits time a → time < due := by
    rintro a ⟨hfallback, htime⟩
    rw [hfallback] at hdue
    have hsame := Option.some.inj hdue
    omega
  unfold Build.OnTime at h
  cases hr : b.request with
  | racing =>
    rw [hr] at h
    obtain ⟨a, -, -, -, hrace⟩ := h
    exact hdecides a hrace
  | raced failure =>
    rw [hr] at h
    obtain ⟨-, a, hrace⟩ := h
    exact hdecides a hrace
  | waiting =>
    rw [hr] at h
    rw [h.2.2.2] at hdue
    cases hdue
  | acquired =>
    rw [hr] at h
    rw [h.2.2.2] at hdue
    cases hdue
  | settled outcome =>
    rw [hr] at h
    rw [h.2.2] at hdue
    cases hdue
  | published outcome =>
    rw [hr] at h
    rw [h.2.2] at hdue
    cases hdue

/-- Work that is done gives its slot back. -/
theorem onTime_release (h : b.OnTime limits time) (hdone : b.work = .done) :
    ({ b with slotSince := none } : Build).OnTime limits time := by
  have hkeeps : ({ b with slotSince := none } : Build).KeepsSlot := Or.inr ⟨rfl, Or.inl hdone⟩
  unfold Build.OnTime at h ⊢
  cases hr : b.request with
  | waiting =>
    rw [hr] at h
    rw [h.2.1] at hdone
    cases hdone
  | acquired =>
    rw [hr] at h
    rw [h.2.1] at hdone
    cases hdone
  | racing =>
    rw [hr] at h
    obtain ⟨a, -, hwork, -⟩ := h
    rw [hwork] at hdone
    cases hdone
  | raced failure =>
    rw [hr] at h
    exact ⟨hkeeps, h.2⟩
  | settled outcome =>
    rw [hr] at h
    exact ⟨hkeeps, h.2⟩
  | published outcome =>
    rw [hr] at h
    exact ⟨hkeeps, h.2⟩

/-- The clock moves on past a build that has nothing left to do. -/
theorem onTime_advance (h : b.OnTime limits time) {later : ℕ} (hprompt : b.isPrompt later = true) :
    b.OnTime limits later := by
  unfold Build.isPrompt at hprompt
  simp only [Bool.and_eq_true] at hprompt
  obtain ⟨⟨⟨hrequest, -⟩, htimeout⟩, -⟩ := hprompt
  unfold Build.OnTime at h ⊢
  cases hr : b.request with
  | acquired => rw [hr] at hrequest; cases hrequest
  | raced failure => rw [hr] at hrequest; cases hrequest
  | racing =>
    rw [hr] at h
    obtain ⟨a, hslot, hwork, hdue, hfallback, -⟩ := h
    rw [hdue] at htimeout
    exact ⟨a, hslot, hwork, hdue, hfallback, of_decide_eq_true htimeout⟩
  | waiting => rw [hr] at h; exact h
  | settled outcome => rw [hr] at h; exact h
  | published outcome => rw [hr] at h; exact h

/-! ### Runs on time -/

/-- Every build of the state is on time. -/
def AllOnTime (limits : TileLimits) (s : TileServiceState) : Prop :=
  ∀ b ∈ s.builds, b.OnTime limits s.time

theorem AllOnTime.set (h : s.AllOnTime limits) (id : ℕ) {b' : Build} (hb' : b'.OnTime limits s.time) :
    ∀ c ∈ s.builds.set id b', c.OnTime limits s.time := by
  intro c hc
  rcases List.mem_or_eq_of_mem_set hc with hc | rfl
  · exact h c hc
  · exact hb'

theorem AllOnTime.concat (h : s.AllOnTime limits) {b' : Build} (hb' : b'.OnTime limits s.time) :
    ∀ c ∈ s.builds ++ [b'], c.OnTime limits s.time := by
  intro c hc
  rcases List.mem_append.mp hc with hc | hc
  · exact h c hc
  · rw [List.mem_singleton.mp hc]
    exact hb'

theorem AllOnTime.get (h : s.AllOnTime limits) (tile : TileIndex) :
    (s.get limits tile).AllOnTime limits := by
  unfold TileServiceState.get
  cases s.inflight.get? tile with
  | some id => exact h
  | none =>
    dsimp only
    unfold TileServiceState.build
    dsimp only
    split
    · exact h.concat ⟨Or.inr ⟨rfl, Or.inr rfl⟩, rfl, rfl⟩
    · unfold TileServiceState.acquire
      split_ifs
      · exact h.concat ⟨rfl, rfl, rfl, rfl⟩
      · exact h.concat ⟨rfl, rfl, rfl, rfl⟩

/-- What waits in the queue can be woken at once. -/
theorem AllOnTime.releaseOnce (h : s.AllOnTime limits) (hsound : s.Sound limits)
    (hb : s.builds[id]? = some b) (hdone : b.work = .done) :
    (s.releaseOnce id b).AllOnTime limits := by
  have hbOn := h b (List.mem_of_getElem? hb)
  unfold TileServiceState.releaseOnce
  split_ifs with hhas
  · have hset := h.set id (onTime_release hbOn hdone)
    unfold TileServiceState.release
    dsimp only
    split
    · exact hset
    · next next rest hwaiting =>
      split
      · exact hset
      · next c hc =>
        have hnext := (hsound.fits id b hb).waiting
        intro e he
        rcases List.mem_or_eq_of_mem_set he with he | rfl
        · exact hset e he
        · -- the build that is woken is another one, which waits
          have hc' := hc
          change (s.builds.set id { b with slotSince := none })[next]? = some c at hc'
          rw [getElem?_set_of_some hb] at hc'
          have hmem : next ∈ s.waiting := by
            change s.waiting = next :: rest at hwaiting
            rw [hwaiting]
            exact List.mem_cons_self
          have hne : next ≠ id := by
            rintro rfl
            have hidle := (hsound.fits next b hb).idle (hnext.mp hmem)
            rw [hidle] at hhas
            cases hhas
          rw [if_neg hne] at hc'
          have hreq := isWaiting_iff.mp ((hsound.fits next c hc').waiting.mp hmem)
          have hcOn := h c (List.mem_of_getElem? hc')
          unfold Build.OnTime at hcOn
          rw [hreq] at hcOn
          exact ⟨rfl, hcOn.2⟩
  · exact h.set id hbOn

theorem AllOnTime.stepBuild (hlimit : 0 < limits.buildTimeoutMs) (h : s.AllOnTime limits)
    (hsound : s.Sound limits) (hb : s.builds[id]? = some b) {event : BuildEvent}
    (hs' : s.stepBuild limits id b event = some s') : s'.AllOnTime limits := by
  have hbOn := h b (List.mem_of_getElem? hb)
  cases event with
  | begin =>
    rw [TileServiceState.stepBuild] at hs'
    split at hs'
    · next hacquired =>
      rw [← Option.some.inj hs']
      unfold Build.OnTime at hbOn
      rw [hacquired] at hbOn
      exact h.set id ⟨s.time, hbOn.1, rfl, rfl, rfl, Nat.le_add_right _ _⟩
    · cases hs'
  | settle failure =>
    rw [TileServiceState.stepBuild] at hs'
    split at hs'
    · next since hwork =>
      rw [← Option.some.inj hs']
      exact h.set id (keepsSlot_race failure hbOn hwork)
    · cases hs'
  | timeout =>
    rw [TileServiceState.stepBuild] at hs'
    split_ifs at hs'
    rw [← Option.some.inj hs']
    exact h.set id (onTime_timeout _ hbOn)
  | fallback =>
    rw [TileServiceState.stepBuild] at hs'
    split_ifs at hs' with hdue
    cases hfallback : b.fallback with
    | none => rw [hfallback] at hdue; cases hdue
    | some due =>
      rw [hfallback] at hdue
      exact absurd (of_decide_eq_true hdue) (not_due hlimit hbOn hfallback).not_ge
  | release =>
    rw [TileServiceState.stepBuild] at hs'
    split at hs'
    · next hdone =>
      rw [← Option.some.inj hs']
      exact h.releaseOnce hsound hb hdone
    · cases hs'
  | resume disk =>
    rw [TileServiceState.stepBuild] at hs'
    split at hs'
    · next failure hraced =>
      rw [← Option.some.inj hs']
      unfold Build.OnTime at hbOn
      rw [hraced] at hbOn
      have hover : ∀ outcome, ({ b with
          timeout := none
          fallback := none
          request := .settled outcome } : Build).OnTime limits s.time := fun outcome =>
        ⟨hbOn.1, rfl, rfl⟩
      unfold TileServiceState.finish
      cases failure with
      | some message => exact h.set id (hover _)
      | none =>
        cases disk with
        | putFails message => exact h.set id (hover _)
        | readFails message => exact h.set id (hover _)
        | read data => exact h.set id (hover _)
    · cases hs'
  | forget =>
    rw [TileServiceState.stepBuild] at hs'
    split at hs'
    · next outcome hsettled =>
      rw [← Option.some.inj hs']
      unfold Build.OnTime at hbOn
      rw [hsettled] at hbOn
      exact h.set id hbOn
    · cases hs'

theorem AllOnTime.step (hlimit : 0 < limits.buildTimeoutMs) (h : s.AllOnTime limits)
    (hsound : s.Sound limits) {event : TileEvent} (hon : s.onTime event = true)
    (hs' : s.step limits event = some s') : s'.AllOnTime limits := by
  cases event with
  | get tile cached =>
    rw [TileServiceState.step] at hs'
    split_ifs at hs'
    · rw [← Option.some.inj hs']
      exact h
    · rw [← Option.some.inj hs']
      exact h.get tile
  | on id event =>
    obtain ⟨b, hb, hs'⟩ := Option.bind_eq_some_iff.mp hs'
    exact h.stepBuild hlimit hsound hb hs'
  | answer i =>
    obtain ⟨call, -, hs'⟩ := Option.bind_eq_some_iff.mp hs'
    obtain ⟨b, -, hs'⟩ := Option.bind_eq_some_iff.mp hs'
    obtain ⟨outcome, -, hs'⟩ := Option.bind_eq_some_iff.mp hs'
    rw [← Option.some.inj hs']
    exact h
  | advance time clock =>
    rw [TileServiceState.step] at hs'
    split_ifs at hs'
    rw [← Option.some.inj hs']
    exact fun b hb => onTime_advance (h b hb) (List.all_eq_true.mp hon b hb)

end TileServiceState

theorem allOnTime (hlimit : 0 < limits.buildTimeoutMs)
    (h : (tileService limits).ReachableUnder (fun s e => s.onTime e = true) s) :
    s.AllOnTime limits := by
  refine h.invariant_of (fun s hs => tileService_sound hs.reachable) (fun s hinit => ?_)
    fun s e s' hsound hs hon hstep _ => hs.step hlimit hsound hon hstep
  obtain ⟨clock, rfl⟩ := hinit
  exact fun b hb => absurd hb List.not_mem_nil

/-- A build whose work runs holds its slot, and a build with a slot has just got it, or its work runs
since then, or its work is done. -/
theorem Build.OnTime.slot (h : b.OnTime limits time) :
    (b.work.isRunning = true → b.hasSlot = true) ∧
      ∀ a, b.slotSince = some a → a = time ∨ b.work = .running a ∨ b.work = .done := by
  have hkeeps : b.KeepsSlot → (b.work.isRunning = true → b.hasSlot = true) ∧
      ∀ a, b.slotSince = some a → a = time ∨ b.work = .running a ∨ b.work = .done := by
    rintro (⟨a, hslot, hwork⟩ | ⟨hslot, hwork⟩)
    · refine ⟨fun _ => ?_, fun a' ha' => ?_⟩
      · rw [Build.hasSlot, hslot]
        rfl
      · rw [hslot] at ha'
        rw [← Option.some.inj ha']
        exact Or.inr hwork
    · refine ⟨fun hrunning => ?_, fun a' ha' => ?_⟩
      · rcases hwork with hwork | hwork
        · rw [hwork] at hrunning; cases hrunning
        · rw [hwork] at hrunning; cases hrunning
      · rw [hslot] at ha'
        cases ha'
  unfold Build.OnTime at h
  cases hr : b.request with
  | waiting =>
    rw [hr] at h
    exact hkeeps (Or.inr ⟨h.1, Or.inr h.2.1⟩)
  | acquired =>
    rw [hr] at h
    refine ⟨fun hrunning => ?_, fun a ha => Or.inl ?_⟩
    · rw [h.2.1] at hrunning
      cases hrunning
    · rw [h.1] at ha
      exact (Option.some.inj ha).symm
  | racing =>
    rw [hr] at h
    obtain ⟨a, hslot, hwork, -⟩ := h
    exact hkeeps (Or.inl ⟨a, hslot, Or.inl hwork⟩)
  | raced failure => rw [hr] at h; exact hkeeps h.1
  | settled outcome => rw [hr] at h; exact hkeeps h.1
  | published outcome => rw [hr] at h; exact hkeeps h.1

/-- Only the clock makes a slot older: a slot is as it was, or given back, or acquired just now. -/
theorem TileServiceState.forall_slots {P : ℕ → Option ℕ → Prop} (hnone : P s.time none)
    (hnow : P s.time (some s.time)) (h : ∀ b ∈ s.builds, P s.time b.slotSince) {event : TileEvent}
    (hclock : ∀ time clock, event ≠ .advance time clock) (hs' : s.step limits event = some s') :
    ∀ b ∈ s'.builds, P s'.time b.slotSince := by
  have hset : ∀ id b', P s.time b'.slotSince → ∀ c ∈ s.builds.set id b', P s.time c.slotSince := by
    intro id b' hb' c hc
    rcases List.mem_or_eq_of_mem_set hc with hc | rfl
    · exact h c hc
    · exact hb'
  have honce : ∀ id b', P s.time b'.slotSince →
      ∀ c ∈ (s.releaseOnce id b').builds, P (s.releaseOnce id b').time c.slotSince := by
    intro id b' hb'
    unfold TileServiceState.releaseOnce
    split_ifs
    · unfold TileServiceState.release
      dsimp only
      split
      · exact hset id _ hnone
      · split
        · exact hset id _ hnone
        · intro c hc
          rcases List.mem_or_eq_of_mem_set hc with hc | rfl
          · exact hset id _ hnone c hc
          · exact hnow
    · exact hset id b' hb'
  have hconcat : ∀ b', P s.time b'.slotSince → ∀ c ∈ s.builds ++ [b'], P s.time c.slotSince := by
    intro b' hb' c hc
    rcases List.mem_append.mp hc with hc | hc
    · exact h c hc
    · rw [List.mem_singleton.mp hc]
      exact hb'
  cases event with
  | get tile cached =>
    rw [TileServiceState.step] at hs'
    split_ifs at hs'
    · rw [← Option.some.inj hs']
      exact h
    · rw [← Option.some.inj hs']
      unfold TileServiceState.get
      cases s.inflight.get? tile with
      | some id => exact h
      | none =>
        dsimp only
        unfold TileServiceState.build
        dsimp only
        split
        · exact hconcat _ hnone
        · unfold TileServiceState.acquire
          split_ifs
          · exact hconcat _ hnow
          · exact hconcat _ hnone
  | on id event =>
    obtain ⟨b, hb, hs'⟩ := Option.bind_eq_some_iff.mp hs'
    have hbP := h b (List.mem_of_getElem? hb)
    cases event with
    | begin =>
      rw [TileServiceState.stepBuild] at hs'
      split at hs'
      · rw [← Option.some.inj hs']
        exact hset id _ hbP
      · cases hs'
    | settle failure =>
      rw [TileServiceState.stepBuild] at hs'
      split at hs'
      · rw [← Option.some.inj hs']
        exact hset id _ hbP
      · cases hs'
    | timeout =>
      rw [TileServiceState.stepBuild] at hs'
      split_ifs at hs'
      rw [← Option.some.inj hs']
      exact hset id _ hbP
    | fallback =>
      rw [TileServiceState.stepBuild] at hs'
      split_ifs at hs'
      rw [← Option.some.inj hs']
      exact honce id _ hbP
    | release =>
      rw [TileServiceState.stepBuild] at hs'
      split at hs'
      · rw [← Option.some.inj hs']
        exact honce id _ hbP
      · cases hs'
    | resume disk =>
      rw [TileServiceState.stepBuild] at hs'
      split at hs'
      · next failure _ =>
        rw [← Option.some.inj hs']
        unfold TileServiceState.finish
        cases failure with
        | some message => exact hset id _ hbP
        | none =>
          cases disk with
          | putFails message => exact hset id _ hbP
          | readFails message => exact hset id _ hbP
          | read data => exact hset id _ hbP
      · cases hs'
    | forget =>
      rw [TileServiceState.stepBuild] at hs'
      split at hs'
      · rw [← Option.some.inj hs']
        exact hset id _ hbP
      · cases hs'
  | answer i =>
    obtain ⟨call, -, hs'⟩ := Option.bind_eq_some_iff.mp hs'
    obtain ⟨b, -, hs'⟩ := Option.bind_eq_some_iff.mp hs'
    obtain ⟨outcome, -, hs'⟩ := Option.bind_eq_some_iff.mp hs'
    rw [← Option.some.inj hs']
    exact h
  | advance time clock => exact absurd rfl (hclock time clock)

/-- No slot is held longer than twice the limit. -/
def TileServiceState.HeldInTime (limits : TileLimits) (s : TileServiceState) : Prop :=
  ∀ b ∈ s.builds, ∀ a, b.slotSince = some a → s.time ≤ a + limits.buildTimeoutMs * 2

/-- Where no source takes longer than twice the limit, no slot is held longer than that. -/
theorem slots_held_in_time (hlimit : 0 < limits.buildTimeoutMs)
    (h : (tileService limits).ReachableUnder (fun s e => s.settles limits e = true) s) :
    s.HeldInTime limits := by
  have honTime : ∀ s, (tileService limits).ReachableUnder (fun s e => s.settles limits e = true) s →
      s.AllOnTime limits := by
    intro s hs
    exact allOnTime hlimit (hs.mono fun s e he => (Bool.and_eq_true _ _ ▸ he).1)
  have hother : ∀ {s s' : TileServiceState} (e : TileEvent), (∀ time clock, e ≠ .advance time clock) →
      s.HeldInTime limits → s.step limits e = some s' → s'.HeldInTime limits := by
    intro s s' e hclock hs hstep b' hb'
    refine TileServiceState.forall_slots (P := fun time slot =>
      ∀ a, slot = some a → time ≤ a + limits.buildTimeoutMs * 2) (fun a ha => ?_) (fun a ha => ?_) hs
      hclock hstep b' hb'
    · cases ha
    · rw [Option.some.inj ha]
      exact Nat.le_add_right _ _
  refine h.invariant_of (I := fun s => s.HeldInTime limits) honTime (fun s hinit => ?_)
    fun s e s' _ hs hsettles hstep hlater => ?_
  · obtain ⟨clock, rfl⟩ := hinit
    exact fun b hb => absurd hb List.not_mem_nil
  · cases e with
    | advance time clock =>
      obtain ⟨hprompt, hsettling⟩ := Bool.and_eq_true_iff.mp hsettles
      change s.step limits (.advance time clock) = some s' at hstep
      rw [TileServiceState.step] at hstep
      split_ifs at hstep
      rw [← Option.some.inj hstep] at hlater ⊢
      intro b hb a ha
      have hb1 := List.all_eq_true.mp hprompt b hb
      have hb2 := List.all_eq_true.mp hsettling b hb
      rcases (hlater b hb).slot.2 a ha with hnow | hrunning | hdone
      · change time ≤ a + _
        exact hnow ▸ Nat.le_add_right _ _
      · rw [Build.isSettling, hrunning] at hb2
        exact of_decide_eq_true hb2
      · -- work that is done has given its slot back before the clock moves on
        rw [Build.isPrompt, hdone, Build.hasSlot, ha] at hb1
        simp at hb1
    | get tile cached => exact hother (.get tile cached) (by simp) hs hstep
    | on id event => exact hother (.on id event) (by simp) hs hstep
    | answer i => exact hother (.answer i) (by simp) hs hstep

/-- The first source takes twice the limit, and the second gets its slot. -/
theorem slots_held_in_time_handover :
    ∃ s, (tileService ⟨1, 1, 10, 1000, Nat.one_pos⟩).ReachableUnder
        (fun s e => s.settles ⟨1, 1, 10, 1000, Nat.one_pos⟩ e = true) s ∧
      s.time = 3000 ∧ s.builds.map Build.slotSince = [none, some 2000] ∧
      s.HeldInTime ⟨1, 1, 10, 1000, Nat.one_pos⟩ := by
  have hrun : (((tileService ⟨1, 1, 10, 1000, Nat.one_pos⟩).runUnder
      (TileServiceState.settles ⟨1, 1, 10, 1000, Nat.one_pos⟩) { clock := 0 }
      [.get ⟨760, 200⟩ false, .on 0 .begin, .advance 1000 1000, .on 0 .timeout,
        .on 0 (.resume (.read [])), .on 0 .forget, .answer 0, .get ⟨761, 200⟩ false,
        .advance 2000 2000, .on 0 (.settle none), .on 0 .release, .on 1 .begin,
        .advance 3000 3000]).map fun s => (s.time, s.builds.map Build.slotSince)) =
        some (3000, [none, some 2000]) := by
    decide +kernel
  obtain ⟨s, hs, hlog⟩ := Option.map_eq_some_iff.mp hrun
  simp only [Prod.mk.injEq] at hlog
  obtain ⟨htime, hslots⟩ := hlog
  have hreach := System.reachableUnder_of_runUnder
    (S := tileService ⟨1, 1, 10, 1000, Nat.one_pos⟩) ⟨0, rfl⟩ hs
  exact ⟨s, hreach, htime, hslots, slots_held_in_time (Nat.succ_pos _) hreach⟩

end Arald
