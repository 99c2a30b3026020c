import Arald.Foundations.Runs

/-!
# Central or peripheral

`BleRoleManager` of `ble-role-manager.js`: a phone rests as a Bluetooth peripheral and
becomes central when it has something to send, for a number of timed attempts with
pauses between them.

The timers that are armed and neither fired nor cleared are `live`. A timer from before
a stop may run its callback all the same. Beside the manager a run records its cycles,
the latest first, each with the calls of `onEnterCentral` and with what ended it.
Times and durations are exact rationals.
-/

namespace Arald

open Foundations

structure RoleOptions where
  centralWindowMs : ℚ
  minBackoffMs : ℚ
  maxBackoffMs : ℚ
  maxAttempts : ℕ∞
  maxCycleDurationMs : ℚ
  centralWindowMs_nonneg : 0 ≤ centralWindowMs
  minBackoffMs_nonneg : 0 ≤ minBackoffMs
  maxBackoffMs_nonneg : 0 ≤ maxBackoffMs
  maxAttempts_pos : 1 ≤ maxAttempts
  maxCycleDurationMs_nonneg : 0 ≤ maxCycleDurationMs

namespace RoleOptions

/-- The options of a manager that is given none. -/
def defaults : RoleOptions where
  centralWindowMs := 9000
  minBackoffMs := 30000
  maxBackoffMs := 45000
  maxAttempts := 4
  maxCycleDurationMs := 3 * 60 * 1000
  centralWindowMs_nonneg := by norm_num
  minBackoffMs_nonneg := by norm_num
  maxBackoffMs_nonneg := by norm_num
  maxAttempts_pos := by norm_num
  maxCycleDurationMs_nonneg := by norm_num

/-- The longest pause between two attempts. -/
def longestBackoffMs (o : RoleOptions) : ℚ := max o.minBackoffMs o.maxBackoffMs

end RoleOptions

inductive Role where
  | peripheral
  | central
  deriving DecidableEq

inductive TimerKind where
  | window
  | backoff
  deriving DecidableEq

/-- A timer with the session that its callback was made for. -/
structure RoleTimer where
  id : ℕ
  kind : TimerKind
  sessionId : ℕ
  due : ℚ
  deriving DecidableEq

inductive RoleCallback where
  | enterCentral
  | enterPeripheral
  | giveUp
  deriving DecidableEq

inductive CycleEnd where
  | connected
  | gaveUp
  | stopped
  deriving DecidableEq

/-- A cycle: how often `onEnterCentral` was called in it, and what ended it when. -/
structure SendCycle where
  startedAt : ℚ
  entered : ℕ
  ends : List (CycleEnd × ℚ)
  deriving DecidableEq

structure BleRoleManager where
  role : Role := .peripheral
  sessionId : ℕ := 0
  attempt : ℕ := 0
  cycleStartedAt : Option ℚ := none
  timer : Option ℕ := none
  started : Bool := false

/-- A manager and its surroundings. -/
structure RoleRun extends BleRoleManager where
  live : List RoleTimer
  armed : List RoleTimer
  /-- The timers armed before the last stop. -/
  stale : List RoleTimer
  clock : ℚ
  calls : List RoleCallback
  cycles : List SendCycle

inductive RoleEvent where
  | start
  | stop
  | requestSend
  | notifyPeerConnected
  /-- The timer fires; `random` is what `Math.random` returns. -/
  | fired (t : RoleTimer) (random : ℚ)

namespace RoleRun

/-- Changes the latest cycle. -/
def onCycle (s : RoleRun) (f : SendCycle → SendCycle) : RoleRun :=
  { s with cycles := s.cycles.modifyHead f }

def endCycle (s : RoleRun) (e : CycleEnd) (now : ℚ) : RoleRun :=
  s.onCycle fun c => { c with ends := c.ends ++ [(e, now)] }

def callEnterCentral (s : RoleRun) : RoleRun :=
  let s : RoleRun := { s with calls := s.calls ++ [.enterCentral] }
  s.onCycle fun c => { c with entered := c.entered + 1 }

def callEnterPeripheral (s : RoleRun) : RoleRun := { s with calls := s.calls ++ [.enterPeripheral] }

def callGiveUp (s : RoleRun) (now : ℚ) : RoleRun :=
  let s : RoleRun := { s with calls := s.calls ++ [.giveUp] }
  s.endCycle .gaveUp now

/-- `setTimeout`, with the handle in `timer`. -/
def setTimer (s : RoleRun) (kind : TimerKind) (sessionId : ℕ) (due : ℚ) : RoleRun :=
  let t : RoleTimer := ⟨s.armed.length, kind, sessionId, due⟩
  { s with timer := some t.id, live := s.live ++ [t], armed := s.armed ++ [t] }

def clearTimer (s : RoleRun) : RoleRun :=
  match s.timer with
  | some id => { s with live := s.live.filter fun t => t.id ≠ id, timer := none }
  | none => s

def tryCentral (o : RoleOptions) (s : RoleRun) (now : ℚ) : RoleRun :=
  let s := { s with attempt := s.attempt + 1, role := .central }
  (s.setTimer .window s.sessionId (now + o.centralWindowMs)).callEnterCentral

def beginCycle (o : RoleOptions) (s : RoleRun) (now : ℚ) : RoleRun :=
  tryCentral o { s with attempt := 0, cycleStartedAt := some now, cycles := ⟨now, 0, []⟩ :: s.cycles } now

def start (s : RoleRun) : RoleRun :=
  if s.started then s
  else
    let s := { s with started := true, sessionId := s.sessionId + 1, role := .peripheral }
    s.callEnterPeripheral

def stop (s : RoleRun) (now : ℚ) : RoleRun :=
  let active := s.cycleStartedAt.isSome
  let s := { s with started := false, sessionId := s.sessionId + 1, stale := s.armed }.clearTimer
  let s := { s with attempt := 0, cycleStartedAt := none }
  if active then s.endCycle .stopped now else s

def requestSend (o : RoleOptions) (s : RoleRun) (now : ℚ) : RoleRun :=
  if !s.started then s
  else if s.role = .central || s.cycleStartedAt.isSome then s
  else beginCycle o s now

def notifyPeerConnected (s : RoleRun) (now : ℚ) : RoleRun :=
  if !s.started then s
  else if s.role ≠ .central then s
  else
    let s := s.clearTimer
    let s := { s with attempt := 0, cycleStartedAt := none, role := .peripheral }
    (s.endCycle .connected now).callEnterPeripheral

/-- No attempt is left, or no time; `null` counts as zero. -/
def budgetExhausted (o : RoleOptions) (s : RoleRun) (now : ℚ) : Bool :=
  o.maxAttempts ≤ s.attempt || o.maxCycleDurationMs ≤ now - s.cycleStartedAt.getD 0

def backoffMs (o : RoleOptions) (random : ℚ) : ℚ :=
  o.minBackoffMs + random * (o.maxBackoffMs - o.minBackoffMs)

def handleWindowExpired (o : RoleOptions) (s : RoleRun) (sessionId : ℕ) (now random : ℚ) : RoleRun :=
  if sessionId ≠ s.sessionId then s
  else
    let exhausted := budgetExhausted o s now
    let s := { s with timer := none, role := .peripheral }
    let s := s.callEnterPeripheral
    if exhausted then
      let s := { s with attempt := 0, cycleStartedAt := none }
      s.callGiveUp now
    else s.setTimer .backoff sessionId (now + backoffMs o random)

def handleBackoffOver (o : RoleOptions) (s : RoleRun) (sessionId : ℕ) (now : ℚ) : RoleRun :=
  if sessionId ≠ s.sessionId then s else tryCentral o { s with timer := none } now

def fire (o : RoleOptions) (s : RoleRun) (t : RoleTimer) (now random : ℚ) : RoleRun :=
  let s := { s with live := s.live.erase t }
  match t.kind with
  | .window => handleWindowExpired o s t.sessionId now random
  | .backoff => handleBackoffOver o s t.sessionId now

def react (o : RoleOptions) (s : RoleRun) (now : ℚ) : RoleEvent → Option RoleRun
  | .start => some s.start
  | .stop => some (s.stop now)
  | .requestSend => some (s.requestSend o now)
  | .notifyPeerConnected => some (s.notifyPeerConnected now)
  | .fired t random =>
    if (t ∈ s.live ∨ t ∈ s.stale) ∧ 0 ≤ random ∧ random < 1 then some (s.fire o t now random) else none

/-- An event and its time. -/
def step (o : RoleOptions) (s : RoleRun) (e : RoleEvent × ℚ) : Option RoleRun :=
  react o { s with clock := e.2 } e.2 e.1

def system (o : RoleOptions) : System RoleRun (RoleEvent × ℚ) where
  Init s := ∃ clock, s = { live := [], armed := [], stale := [], clock, calls := [], cycles := [] }
  step := step o

/-- The clock does not step backwards, and no live timer is late. -/
def onTime (s : RoleRun) (e : RoleEvent × ℚ) : Bool :=
  s.clock ≤ e.2 && s.live.all fun t => e.2 ≤ t.due &&
    match e.1 with
    | .fired t' _ => t' ≠ t || e.2 = t.due
    | _ => true

end RoleRun

/-! ### The phases of a manager -/

/-- At rest, or in a cycle that waits for one timer: the end of the attempt, or of the pause
before the next one. The cycles that are over are kept, the latest first. -/
inductive RolePhase where
  | resting (past : List SendCycle)
  | underway (t : RoleTimer) (c : SendCycle) (past : List SendCycle)

namespace RolePhase

/-- What may happen to a phase at `now`. -/
inductive Step (o : RoleOptions) (now : ℚ) : RolePhase → RolePhase → Prop
  | stay (p : RolePhase) : Step o now p p
  | begin (past : List SendCycle) (t : RoleTimer) :
      t.kind = .window → t.due = now + o.centralWindowMs →
        Step o now (.resting past) (.underway t ⟨now, 1, []⟩ past)
  | finish (t : RoleTimer) (c : SendCycle) (past : List SendCycle) (e : CycleEnd) :
      Step o now (.underway t c past) (.resting ({ c with ends := [(e, now)] } :: past))
  | pause (t t' : RoleTimer) (c : SendCycle) (past : List SendCycle) :
      (c.entered : ℕ∞) < o.maxAttempts → now - c.startedAt < o.maxCycleDurationMs →
        t'.kind = .backoff → now ≤ t'.due → t'.due ≤ now + o.longestBackoffMs →
          Step o now (.underway t c past) (.underway t' c past)
  | retry (t t' : RoleTimer) (c : SendCycle) (past : List SendCycle) :
      t.kind = .backoff → t'.kind = .window → t'.due = now + o.centralWindowMs →
        Step o now (.underway t c past) (.underway t' { c with entered := c.entered + 1 } past)

/-- A cycle that is over: it had no more attempts than allowed, and one end. -/
structure IsOver (o : RoleOptions) (c : SendCycle) : Prop where
  entered : (c.entered : ℕ∞) ≤ o.maxAttempts
  ends : ∃ e, c.ends = [e]

/-- The cycles of a phase keep to the number of attempts. -/
def Bounded (o : RoleOptions) : RolePhase → Prop
  | .resting past => ∀ c ∈ past, IsOver o c
  | .underway t c past => (∀ c ∈ past, IsOver o c) ∧
      (c.entered : ℕ∞) ≤ o.maxAttempts ∧ (t.kind = .backoff → (c.entered : ℕ∞) < o.maxAttempts)

variable {o : RoleOptions} {now : ℚ} {p p' : RolePhase}

theorem Bounded.step (h : Bounded o p) (hstep : Step o now p p') : Bounded o p' := by
  cases hstep with
  | stay => exact h
  | begin past t hkind hdue =>
    refine ⟨h, ?_, fun hbackoff => ?_⟩
    · exact_mod_cast o.maxAttempts_pos
    · rw [hkind] at hbackoff
      cases hbackoff
  | finish t c past e =>
    intro c' hc'
    rcases List.mem_cons.mp hc' with rfl | hold
    · exact ⟨h.2.1, (e, now), rfl⟩
    · exact h.1 c' hold
  | pause t t' c past hattempts _ _ _ _ => exact ⟨h.1, h.2.1, fun _ => hattempts⟩
  | retry t t' c past hkind hkind' _ =>
    refine ⟨h.1, ?_, fun hbackoff => ?_⟩
    · have hleft := Order.add_one_le_of_lt (h.2.2 hkind)
      exact_mod_cast hleft
    · rw [hkind'] at hbackoff
      cases hbackoff

/-! ### Durations -/

/-- The longest a cycle may last. -/
def longestCycleMs (o : RoleOptions) : ℚ := o.maxCycleDurationMs + o.longestBackoffMs + o.centralWindowMs

def InTime (o : RoleOptions) (c : SendCycle) : Prop := ∀ e ∈ c.ends, e.2 - c.startedAt ≤ longestCycleMs o

/-- No cycle has lasted too long, and the timer ends the present one in time. -/
def Timely (o : RoleOptions) : RolePhase → Prop
  | .resting past => ∀ c ∈ past, InTime o c
  | .underway t c past => (∀ c ∈ past, InTime o c) ∧ t.due - c.startedAt ≤ longestCycleMs o ∧
      (t.kind = .backoff → t.due - c.startedAt ≤ o.maxCycleDurationMs + o.longestBackoffMs)

/-- The timer that is waited for is not late. -/
def NotLate (now : ℚ) : RolePhase → Prop
  | .resting _ => True
  | .underway t _ _ => now ≤ t.due

theorem longestBackoffMs_nonneg (o : RoleOptions) : 0 ≤ o.longestBackoffMs :=
  o.minBackoffMs_nonneg.trans (le_max_left _ _)

theorem Timely.step (h : Timely o p) (hlate : NotLate now p) (hstep : Step o now p p') :
    Timely o p' ∧ NotLate now p' := by
  have hwindow := o.centralWindowMs_nonneg
  have hbackoff := longestBackoffMs_nonneg o
  have hduration := o.maxCycleDurationMs_nonneg
  cases hstep with
  | stay => exact ⟨h, hlate⟩
  | begin past t hkind hdue =>
    refine ⟨⟨h, ?_, fun hpause => ?_⟩, ?_⟩
    · rw [longestCycleMs, hdue]
      dsimp only
      linarith
    · rw [hkind] at hpause
      cases hpause
    · change now ≤ t.due
      linarith
  | finish t c past e =>
    refine ⟨fun c' hc' => ?_, trivial⟩
    rcases List.mem_cons.mp hc' with rfl | hold
    · intro e' he'
      rw [List.mem_singleton.mp he']
      exact (sub_le_sub_right hlate _).trans h.2.1
    · exact h.1 c' hold
  | pause t t' c past hattempts hbudget hkind hsoon hdue =>
    have hlong : t'.due - c.startedAt ≤ o.maxCycleDurationMs + o.longestBackoffMs := by linarith
    refine ⟨⟨h.1, ?_, fun _ => hlong⟩, hsoon⟩
    rw [longestCycleMs]
    linarith
  | retry t t' c past hkind hkind' hdue =>
    have hpause := h.2.2 hkind
    have hnow : now ≤ t.due := hlate
    refine ⟨⟨h.1, ?_, fun hbackoff' => ?_⟩, ?_⟩
    · rw [longestCycleMs, hdue]
      dsimp only
      linarith
    · rw [hkind'] at hbackoff'
      cases hbackoff'
    · change now ≤ t'.due
      linarith

end RolePhase

/-! ### The manager moves through the phases -/

namespace RoleRun

structure Resting (s : RoleRun) (past : List SendCycle) : Prop where
  timer : s.timer = none
  live : s.live = []
  since : s.cycleStartedAt = none
  role : s.started = true → s.role = .peripheral
  cycles : s.cycles = past

structure Underway (s : RoleRun) (t : RoleTimer) (c : SendCycle) (past : List SendCycle) : Prop where
  started : s.started = true
  timer : s.timer = some t.id
  live : s.live = [t]
  session : t.sessionId = s.sessionId
  role : s.role = .central ↔ t.kind = .window
  since : s.cycleStartedAt = some c.startedAt
  cycles : s.cycles = c :: past
  entered : c.entered = s.attempt
  ends : c.ends = []

def Represents (s : RoleRun) : RolePhase → Prop
  | .resting past => s.Resting past
  | .underway t c past => s.Underway t c past

/-- No timer is from a later session, and the stale ones are from an earlier one. -/
structure Sessions (s : RoleRun) : Prop where
  armed : ∀ t ∈ s.armed, t.sessionId ≤ s.sessionId
  stale : ∀ t ∈ s.stale, t.sessionId < s.sessionId

variable {o : RoleOptions} {s s' : RoleRun} {t : RoleTimer} {c : SendCycle} {past : List SendCycle}
  {p : RolePhase} {now random : ℚ}

theorem Represents.tick (h : s.Represents p) (now : ℚ) : Represents { s with clock := now } p := by
  cases p with
  | resting past => exact ⟨h.timer, h.live, h.since, h.role, h.cycles⟩
  | underway t c past =>
    exact ⟨h.started, h.timer, h.live, h.session, h.role, h.since, h.cycles, h.entered, h.ends⟩

theorem Sessions.setTimer (h : Sessions s) (kind : TimerKind) (due : ℚ) :
    Sessions (s.setTimer kind s.sessionId due) where
  armed t ht := by
    rcases List.mem_append.mp ht with hold | hnew
    · exact h.armed t hold
    · rw [List.mem_singleton.mp hnew]
      exact le_rfl
  stale := h.stale

variable (o now) in
/-- The timer of an attempt is armed before anything else can happen. -/
theorem underway_tryCentral (hstarted : s.started = true) (hlive : s.live = [])
    (hsince : s.cycleStartedAt = some c.startedAt) (hcycles : s.cycles = c :: past)
    (hentered : c.entered = s.attempt) (hends : c.ends = []) :
    ∃ t : RoleTimer, t.kind = .window ∧ t.due = now + o.centralWindowMs ∧
      (s.tryCentral o now).Underway t { c with entered := c.entered + 1 } past := by
  refine ⟨⟨s.armed.length, .window, s.sessionId, now + o.centralWindowMs⟩, rfl, rfl, ?_⟩
  have hfirst : (s.cycles.modifyHead fun c => { c with entered := c.entered + 1 }) =
      { c with entered := c.entered + 1 } :: past := by rw [hcycles, List.modifyHead_cons]
  exact ⟨hstarted, rfl, congrArg (· ++ _) hlive, rfl, ⟨fun _ => rfl, fun _ => rfl⟩, hsince, hfirst,
    congrArg (· + 1) hentered, hends⟩

theorem Sessions.tryCentral (h : Sessions s) (o : RoleOptions) (now : ℚ) : Sessions (s.tryCentral o now) := by
  have hset := h.setTimer .window (now + o.centralWindowMs)
  exact ⟨hset.armed, hset.stale⟩

/-- A callback from another session does nothing. -/
theorem fire_of_other_session (hsession : t.sessionId ≠ s.sessionId) (hlive : t ∉ s.live) :
    s.fire o t now random = s := by
  unfold fire
  rw [List.erase_of_not_mem hlive]
  cases t.kind with
  | window => exact if_pos hsession
  | backoff => exact if_pos hsession

theorem clearTimer_of_underway (h : s.Underway t c past) : s.clearTimer = { s with live := [], timer := none } := by
  rw [clearTimer, h.timer]
  dsimp only
  rw [h.live]
  simp

/-- The next phase, in reach of the present one. -/
def Moves (o : RoleOptions) (now : ℚ) (p : RolePhase) (s' : RoleRun) : Prop :=
  ∃ p', RolePhase.Step o now p p' ∧ s'.Represents p'

theorem Represents.stay (h : s.Represents p) : Moves o now p s := ⟨p, .stay p, h⟩

theorem endCycle_cycles (h : s.Underway t c past) (e : CycleEnd) :
    (s.cycles.modifyHead fun c => { c with ends := c.ends ++ [(e, now)] }) =
      { c with ends := [(e, now)] } :: past := by
  rw [h.cycles, List.modifyHead_cons, h.ends, List.nil_append]

theorem Represents.start (h : s.Represents p) : Moves o now p s.start := by
  unfold RoleRun.start
  split_ifs with hstarted
  · exact h.stay
  · cases p with
    | resting past =>
      have hrest : s.Resting past := h
      exact Represents.stay (p := .resting past) ⟨hrest.timer, hrest.live, hrest.since, fun _ => rfl, hrest.cycles⟩
    | underway t c past => exact absurd (Underway.started h) hstarted

theorem Represents.stop (h : s.Represents p) : Moves o now p (s.stop now) := by
  cases p with
  | resting past =>
    have hrest : s.Resting past := h
    unfold RoleRun.stop clearTimer
    dsimp only
    rw [hrest.since, hrest.timer, Option.isSome_none, if_neg Bool.false_ne_true]
    exact Represents.stay (p := .resting past)
      ⟨rfl, hrest.live, rfl, (fun hstarted => by cases hstarted), hrest.cycles⟩
  | underway t c past =>
    have hcycle : s.Underway t c past := h
    refine ⟨_, .finish t c past .stopped, ?_⟩
    unfold RoleRun.stop clearTimer
    dsimp only
    rw [hcycle.since, hcycle.timer, Option.isSome_some, if_pos rfl]
    have hlive : (s.live.filter fun t' => t'.id ≠ t.id) = [] := by simp [hcycle.live]
    exact ⟨rfl, hlive, rfl, (fun hstarted => by cases hstarted), endCycle_cycles hcycle .stopped⟩

theorem Represents.requestSend (h : s.Represents p) : Moves o now p (s.requestSend o now) := by
  unfold RoleRun.requestSend
  cases hstarted : s.started with
  | false => exact h.stay
  | true =>
    cases p with
    | resting past =>
      have hrest : s.Resting past := h
      rw [hrest.role hstarted, hrest.since]
      obtain ⟨t, hkind, hdue, hunderway⟩ := underway_tryCentral o now
        (s := { s with attempt := 0, cycleStartedAt := some now, cycles := ⟨now, 0, []⟩ :: s.cycles })
        (c := ⟨now, 0, []⟩) hstarted hrest.live rfl rfl rfl rfl
      rw [hrest.cycles] at hunderway
      refine ⟨_, .begin past t hkind hdue, ?_⟩
      simpa [beginCycle, hrest.cycles, Represents] using hunderway
    | underway t c past =>
      have hcycle : s.Underway t c past := h
      rw [hcycle.since, Option.isSome_some, Bool.or_true]
      exact h.stay

theorem Represents.notifyPeerConnected (h : s.Represents p) : Moves o now p (s.notifyPeerConnected now) := by
  unfold RoleRun.notifyPeerConnected
  cases hstarted : s.started with
  | false => exact h.stay
  | true =>
    by_cases hrole : s.role = .central
    · rw [if_neg (by decide), if_neg (not_not.mpr hrole)]
      cases p with
      | resting past =>
        have hrest : s.Resting past := h
        cases hrole.symm.trans (hrest.role hstarted)
      | underway t c past =>
        have hcycle : s.Underway t c past := h
        refine ⟨_, .finish t c past .connected, ?_⟩
        rw [clearTimer_of_underway hcycle]
        exact ⟨rfl, rfl, rfl, fun _ => rfl, endCycle_cycles hcycle .connected⟩
    · rw [if_neg (by decide), if_pos hrole]
      exact h.stay

theorem backoffMs_bounds (o : RoleOptions) (hrandom : 0 ≤ random) (hrandom' : random < 1) :
    0 ≤ backoffMs o random ∧ backoffMs o random ≤ o.longestBackoffMs := by
  have hmin := o.minBackoffMs_nonneg
  have hmax := o.maxBackoffMs_nonneg
  have hconvex : backoffMs o random = (1 - random) * o.minBackoffMs + random * o.maxBackoffMs := by
    rw [backoffMs]
    ring
  have hrest : 0 ≤ 1 - random := by linarith
  have hfirst := mul_nonneg hrest hmin
  have hsecond := mul_nonneg hrandom hmax
  have hfirst' := mul_le_mul_of_nonneg_left (le_max_left o.minBackoffMs o.maxBackoffMs) hrest
  have hsecond' := mul_le_mul_of_nonneg_left (le_max_right o.minBackoffMs o.maxBackoffMs) hrandom
  rw [hconvex, RoleOptions.longestBackoffMs]
  constructor <;> linarith

/-- The end of an attempt. -/
theorem Underway.windowExpired (h : s.Underway t c past) (hrandom : 0 ≤ random) (hrandom' : random < 1) :
    Moves o now (.underway t c past) (handleWindowExpired o { s with live := [] } t.sessionId now random) := by
  unfold handleWindowExpired
  rw [if_neg (not_not.mpr h.session)]
  dsimp only
  split_ifs with hexhausted
  · refine ⟨_, .finish t c past .gaveUp, ?_⟩
    exact ⟨rfl, rfl, rfl, fun _ => rfl, endCycle_cycles h .gaveUp⟩
  · obtain ⟨hattempts, hbudget⟩ : ¬o.maxAttempts ≤ s.attempt ∧
        ¬o.maxCycleDurationMs ≤ now - c.startedAt := by
      simpa [budgetExhausted, h.since] using hexhausted
    obtain ⟨hsoon, hlong⟩ := backoffMs_bounds o hrandom hrandom'
    refine ⟨_, .pause t ⟨s.armed.length, .backoff, t.sessionId, now + backoffMs o random⟩ c past ?_
      (not_le.mp hbudget) rfl (by dsimp only; linarith) (by dsimp only; linarith), ?_⟩
    · rw [h.entered]
      exact not_le.mp hattempts
    · exact ⟨h.started, rfl, rfl, h.session, ⟨(fun hrole => by cases hrole), (fun hkind => by cases hkind)⟩, h.since,
        h.cycles, h.entered, h.ends⟩

/-- The end of a pause. -/
theorem Underway.backoffOver (h : s.Underway t c past) (hkind : t.kind = .backoff) :
    Moves o now (.underway t c past) (handleBackoffOver o { s with live := [] } t.sessionId now) := by
  unfold handleBackoffOver
  rw [if_neg (not_not.mpr h.session)]
  obtain ⟨t', hkind', hdue', hunderway⟩ := underway_tryCentral o now
    (s := { s with live := [], timer := none }) (c := c) h.started rfl h.since h.cycles h.entered h.ends
  exact ⟨_, .retry t t' c past hkind hkind' hdue', hunderway⟩

theorem Represents.fire (h : s.Represents p) (hsessions : s.Sessions) (ht : t ∈ s.live ∨ t ∈ s.stale)
    (hrandom : 0 ≤ random) (hrandom' : random < 1) : Moves o now p (s.fire o t now random) := by
  by_cases hlive : t ∈ s.live
  · cases p with
    | resting past =>
      rw [Resting.live h] at hlive
      cases hlive
    | underway t' c past =>
      have hcycle : s.Underway t' c past := h
      obtain rfl : t = t' := by simpa [hcycle.live] using hlive
      unfold RoleRun.fire
      rw [hcycle.live, List.erase_cons_head]
      cases hkind : t.kind with
      | window => exact hcycle.windowExpired hrandom hrandom'
      | backoff => exact hcycle.backoffOver hkind
  · rw [fire_of_other_session (hsessions.stale t (ht.resolve_left hlive)).ne hlive]
    exact h.stay

theorem Represents.react {e : RoleEvent} (h : s.Represents p) (hsessions : s.Sessions)
    (hreact : s.react o now e = some s') : Moves o now p s' := by
  cases e with
  | start =>
    cases hreact
    exact h.start
  | stop =>
    cases hreact
    exact h.stop
  | requestSend =>
    cases hreact
    exact h.requestSend
  | notifyPeerConnected =>
    cases hreact
    exact h.notifyPeerConnected
  | fired t random =>
    rw [RoleRun.react] at hreact
    split_ifs at hreact with hguard
    cases hreact
    exact h.fire hsessions hguard.1 hguard.2.1 hguard.2.2

theorem Sessions.stop (h : s.Sessions) : Sessions (s.stop now) := by
  have hlater : ∀ t ∈ s.armed, t.sessionId < s.sessionId + 1 := fun t ht => Nat.lt_succ_of_le (h.armed t ht)
  unfold RoleRun.stop clearTimer
  cases s.timer <;> cases s.cycleStartedAt <;> exact ⟨fun t ht => (hlater t ht).le, hlater⟩

theorem Sessions.fire (h : s.Sessions) (t : RoleTimer) : Sessions (s.fire o t now random) := by
  unfold RoleRun.fire
  cases t.kind with
  | window =>
    dsimp only
    unfold handleWindowExpired
    by_cases hsession : t.sessionId = s.sessionId
    · rw [if_neg (not_not.mpr hsession)]
      dsimp only
      have hset := h.setTimer .backoff (now + backoffMs o random)
      rw [← hsession] at hset
      split_ifs
      · exact ⟨h.armed, h.stale⟩
      · exact ⟨hset.armed, hset.stale⟩
    · rw [if_pos hsession]
      exact ⟨h.armed, h.stale⟩
  | backoff =>
    dsimp only
    unfold handleBackoffOver
    split_ifs with hsession
    · exact ⟨h.armed, h.stale⟩
    · exact Sessions.tryCentral (s := { s with live := s.live.erase t, timer := none }) ⟨h.armed, h.stale⟩ o now

theorem Sessions.react {e : RoleEvent} (h : s.Sessions) (hreact : s.react o now e = some s') : s'.Sessions := by
  cases e with
  | start =>
    cases hreact
    unfold RoleRun.start
    split_ifs
    · exact h
    · exact ⟨fun t ht => (h.armed t ht).trans (Nat.le_succ _), fun t ht => Nat.lt_succ_of_lt (h.stale t ht)⟩
  | stop =>
    cases hreact
    exact h.stop
  | requestSend =>
    cases hreact
    unfold RoleRun.requestSend beginCycle
    split_ifs
    · exact h
    · exact h
    · exact Sessions.tryCentral
        (s := { s with attempt := 0, cycleStartedAt := some now, cycles := ⟨now, 0, []⟩ :: s.cycles })
        ⟨h.armed, h.stale⟩ o now
  | notifyPeerConnected =>
    cases hreact
    unfold RoleRun.notifyPeerConnected clearTimer
    cases s.timer <;> split_ifs <;> exact ⟨h.armed, h.stale⟩
  | fired t random =>
    rw [RoleRun.react] at hreact
    split_ifs at hreact
    cases hreact
    exact h.fire t

theorem clock_of_react {e : RoleEvent} (hreact : s.react o now e = some s') : s'.clock = s.clock := by
  cases e with
  | start =>
    cases hreact
    unfold RoleRun.start
    split_ifs <;> rfl
  | stop =>
    cases hreact
    unfold RoleRun.stop clearTimer
    cases s.timer <;> cases s.cycleStartedAt <;> rfl
  | requestSend =>
    cases hreact
    unfold RoleRun.requestSend
    split_ifs <;> rfl
  | notifyPeerConnected =>
    cases hreact
    unfold RoleRun.notifyPeerConnected clearTimer
    cases s.timer <;> split_ifs <;> rfl
  | fired t random =>
    rw [RoleRun.react] at hreact
    split_ifs at hreact
    cases hreact
    unfold RoleRun.fire handleWindowExpired handleBackoffOver
    cases t.kind with
    | window =>
      dsimp only
      split_ifs <;> rfl
    | backoff =>
      dsimp only
      split_ifs <;> rfl

/-! ### Runs -/

/-- The phase of a manager, and what holds of it in every run. -/
structure InPhase (o : RoleOptions) (s : RoleRun) (p : RolePhase) : Prop where
  represents : s.Represents p
  bounded : RolePhase.Bounded o p

theorem inPhase_of_init (h : (system o).Init s) : InPhase o s (.resting []) ∧ s.Sessions := by
  obtain ⟨clock, rfl⟩ := h
  refine ⟨⟨⟨rfl, rfl, rfl, fun _ => rfl, rfl⟩, fun c hc => by cases hc⟩, ?_⟩
  exact ⟨(fun t ht => by cases ht), (fun t ht => by cases ht)⟩

theorem InPhase.step {e : RoleEvent × ℚ} (h : InPhase o s p) (hsessions : s.Sessions)
    (hstep : s.step o e = some s') :
    (∃ p', RolePhase.Step o e.2 p p' ∧ InPhase o s' p') ∧ s'.Sessions := by
  have hsessions' : Sessions { s with clock := e.2 } := ⟨hsessions.armed, hsessions.stale⟩
  obtain ⟨p', hp', hrepresents⟩ := (h.represents.tick e.2).react hsessions' hstep
  exact ⟨⟨p', hp', hrepresents, h.bounded.step hp'⟩, hsessions'.react hstep⟩

theorem exists_inPhase {C : RoleRun → RoleEvent × ℚ → Prop} (h : (system o).ReachableUnder C s) :
    (∃ p, InPhase o s p) ∧ s.Sessions := by
  apply h.invariant (I := fun s => (∃ p, InPhase o s p) ∧ s.Sessions)
  · intro s hs
    exact ⟨⟨_, (inPhase_of_init hs).1⟩, (inPhase_of_init hs).2⟩
  · rintro s e s' ⟨⟨p, hp⟩, hsessions⟩ _ hstep
    obtain ⟨⟨p', -, hp'⟩, hsessions'⟩ := hp.step hsessions hstep
    exact ⟨⟨p', hp'⟩, hsessions'⟩

theorem notLate_of_onTime {e : RoleEvent × ℚ} (h : s.Represents p) (honTime : s.onTime e = true) :
    RolePhase.NotLate e.2 p := by
  cases p with
  | resting past => exact trivial
  | underway t c past =>
    have hall := Bool.and_elim_right honTime
    rw [Underway.live h] at hall
    have hdue : e.2 ≤ t.due := of_decide_eq_true (Bool.and_elim_left (List.all_eq_true.mp hall t List.mem_cons_self))
    exact hdue

/-- With timers on time, a manager is in a phase whose timer is not late. -/
theorem exists_timely (h : (system o).ReachableUnder (fun s e => s.onTime e = true) s) :
    ∃ p, InPhase o s p ∧ RolePhase.Timely o p ∧ RolePhase.NotLate s.clock p := by
  apply h.invariant_of (J := Sessions)
    (I := fun s => ∃ p, InPhase o s p ∧ RolePhase.Timely o p ∧ RolePhase.NotLate s.clock p)
  · exact fun s hs => (exists_inPhase hs).2
  · intro s hs
    exact ⟨_, (inPhase_of_init hs).1, (fun c hc => by cases hc), trivial⟩
  · rintro s e s' hsessions ⟨p, hp, htimely, -⟩ honTime hstep _
    obtain ⟨⟨p', hmove, hp'⟩, -⟩ := hp.step hsessions hstep
    obtain ⟨htimely', hlate⟩ := htimely.step (notLate_of_onTime hp.represents honTime) hmove
    have hclock : s'.clock = e.2 := clock_of_react hstep
    exact ⟨p', hp', htimely', hclock ▸ hlate⟩

/-- A timer from before a stop changes nothing when its callback runs. -/
theorem stale_ignored (hsessions : s.Sessions) (h : s.Represents p) (ht : t ∈ s.stale)
    (hstep : s.step o (.fired t random, now) = some s') : s' = { s with clock := now } := by
  have hother : t.sessionId ≠ s.sessionId := (hsessions.stale t ht).ne
  have hlive : t ∉ s.live := by
    cases p with
    | resting past =>
      rw [Resting.live h]
      exact List.not_mem_nil
    | underway t' c past =>
      rw [Underway.live h]
      intro hmem
      exact hother (List.mem_singleton.mp hmem ▸ Underway.session h)
  rw [RoleRun.step, RoleRun.react] at hstep
  split_ifs at hstep
  cases hstep
  exact fire_of_other_session hother hlive

/-- At most one timer is live, and in the central role it is the one of the attempt. A cycle has
no more attempts than allowed; all cycles but the present one have ended once. A timer from
before a stop does nothing. With timers on time, no cycle lasts longer than its duration, one
pause and one attempt. -/
theorem cycles_bounded_and_end_once (o : RoleOptions) :
    (∀ s, (system o).Reachable s →
      s.live.length ≤ 1 ∧
      (s.started = true → s.role = .central → ∃ t ∈ s.live, t.kind = .window ∧ s.timer = some t.id) ∧
      (∀ c ∈ s.cycles, (c.entered : ℕ∞) ≤ o.maxAttempts) ∧
      (∃ past, (∀ c ∈ past, ∃ e, c.ends = [e]) ∧
        ((s.cycleStartedAt = none ∧ s.cycles = past) ∨
          ∃ c, s.cycleStartedAt = some c.startedAt ∧ c.ends = [] ∧ s.cycles = c :: past)) ∧
      ∀ t ∈ s.stale, ∀ random now s', s.step o (.fired t random, now) = some s' → s' = { s with clock := now }) ∧
    ∀ s, (system o).ReachableUnder (fun s e => s.onTime e = true) s → ∀ c ∈ s.cycles,
      (∀ e ∈ c.ends, e.2 - c.startedAt ≤ o.maxCycleDurationMs + o.longestBackoffMs + o.centralWindowMs) ∧
        (c.ends = [] → s.clock - c.startedAt ≤ o.maxCycleDurationMs + o.longestBackoffMs + o.centralWindowMs) := by
  constructor
  · intro s hs
    obtain ⟨⟨p, hp⟩, hsessions⟩ := exists_inPhase hs
    have hstale : ∀ t ∈ s.stale, ∀ random now s', s.step o (.fired t random, now) = some s' →
        s' = { s with clock := now } :=
      fun t ht random now s' hstep => stale_ignored hsessions hp.represents ht hstep
    cases p with
    | resting past =>
      have hrest : s.Resting past := hp.represents
      refine ⟨by rw [hrest.live]; exact Nat.zero_le 1, fun hstarted hrole => ?_, fun c hc => ?_, ?_, hstale⟩
      · cases hrole.symm.trans (hrest.role hstarted)
      · rw [hrest.cycles] at hc
        exact (hp.bounded c hc).entered
      · exact ⟨past, fun c hc => (hp.bounded c hc).ends, .inl ⟨hrest.since, hrest.cycles⟩⟩
    | underway t c past =>
      have hcycle : s.Underway t c past := hp.represents
      refine ⟨by rw [hcycle.live]; exact le_rfl, fun _ hrole => ?_, fun c' hc' => ?_, ?_, hstale⟩
      · exact ⟨t, by rw [hcycle.live]; exact List.mem_singleton_self t, hcycle.role.mp hrole, hcycle.timer⟩
      · rw [hcycle.cycles] at hc'
        rcases List.mem_cons.mp hc' with rfl | hold
        · exact hp.bounded.2.1
        · exact (hp.bounded.1 c' hold).entered
      · exact ⟨past, fun c' hc' => (hp.bounded.1 c' hc').ends, .inr ⟨c, hcycle.since, hcycle.ends, hcycle.cycles⟩⟩
  · intro s hs c hc
    obtain ⟨p, hp, htimely, hlate⟩ := exists_timely hs
    cases p with
    | resting past =>
      have hrest : s.Resting past := hp.represents
      rw [hrest.cycles] at hc
      refine ⟨htimely c hc, fun hopen => ?_⟩
      obtain ⟨e, he⟩ := (hp.bounded c hc).ends
      cases hopen.symm.trans he
    | underway t c' past =>
      have hcycle : s.Underway t c' past := hp.represents
      have hnow : s.clock ≤ t.due := hlate
      rw [hcycle.cycles] at hc
      rcases List.mem_cons.mp hc with rfl | hold
      · refine ⟨fun e he => ?_, fun _ => (sub_le_sub_right hnow _).trans htimely.2.1⟩
        rw [hcycle.ends] at he
        cases he
      · refine ⟨htimely.1 c hold, fun hopen => ?_⟩
        obtain ⟨e, he⟩ := (hp.bounded.1 c hold).ends
        cases hopen.symm.trans he

/-- Nobody is found in the first attempt; in the second a peer connects. -/
theorem cycles_bounded_and_end_once_second :
    ∃ s, (system .defaults).ReachableUnder (fun s e => s.onTime e = true) s ∧
      s.cycles = [⟨1, 2, [(.connected, 50000)]⟩] ∧ s.live.length ≤ 1 ∧
      ∀ c ∈ s.cycles, ∀ e ∈ c.ends, e.2 - c.startedAt ≤ 234000 := by
  have hrun : ((system .defaults).runUnder onTime
      { live := [], armed := [], stale := [], clock := 0, calls := [], cycles := [] }
      [(.start, 0), (.requestSend, 1), (.fired ⟨0, .window, 1, 9001⟩ (1 / 2), 9001),
        (.fired ⟨1, .backoff, 1, 46501⟩ 0, 46501), (.notifyPeerConnected, 50000), (.stop, 60000)]).map
      (·.cycles) = some [⟨1, 2, [(.connected, 50000)]⟩] := by
    decide +kernel
  obtain ⟨s, hs, hcycles⟩ := Option.map_eq_some_iff.mp hrun
  have hreach := System.reachableUnder_of_runUnder (S := system .defaults) ⟨0, rfl⟩ hs
  obtain ⟨hall, htimely⟩ := cycles_bounded_and_end_once .defaults
  refine ⟨s, hreach, hcycles, (hall s hreach.reachable).1, fun c hc e he => ?_⟩
  have hlong := (htimely s hreach c hc).1 e he
  have hbound : RoleOptions.defaults.maxCycleDurationMs + RoleOptions.defaults.longestBackoffMs +
      RoleOptions.defaults.centralWindowMs = 234000 := by
    norm_num [RoleOptions.defaults, RoleOptions.longestBackoffMs]
  exact hlong.trans hbound.le

end RoleRun
end Arald
