import Arald.Foundations.Runs
import Arald.Foundations.JsValue

/-!
# Commands over a serial bridge

`Sx127xBridgeClient` and `Sx126xBridgeClient`. Commands are queued and sent one
at a time. A frame on the wire does not say which command it answers: it goes to
whichever attempt is pending, and a timer that runs out takes away whatever is
pending. Here each arriving frame carries, for the record only, the attempt that
the device answers with it.
-/

namespace Arald

open Foundations

def frameSof : UInt8 := 0xaa

def maxFramePayloadBytes : ℕ := 0xff

structure BridgeFrame where
  type : UInt8
  payload : List UInt8
  deriving DecidableEq

def computeChecksum (type : UInt8) (payload : List UInt8) : UInt8 :=
  payload.foldl (fun c b => c ^^^ b) (type ^^^ UInt8.ofNat payload.length)

def encodeBridgeFrame (type : UInt8) (payload : List UInt8) : Except String (List UInt8) :=
  if maxFramePayloadBytes < payload.length then
    .error s!"bridge frame payload too large: {payload.length} bytes (max {maxFramePayloadBytes})"
  else
    .ok ([frameSof, type, UInt8.ofNat payload.length] ++ payload ++ [computeChecksum type payload])

/-- `BridgeStatus.BUSY` of the SX126x bridge. -/
def statusBusy : UInt8 := 0x02

/-- A command of either driver, with the payload of its request frame or the
error that building it throws. -/
structure BridgeRequest where
  type : UInt8
  payload : Except String (List UInt8)

namespace BridgeRequest

def reset : BridgeRequest := ⟨0x01, .ok []⟩

/-- `n & 0xff`. -/
def lowByte (n : ℤ) : UInt8 := UInt8.ofNat (n % 256).toNat

/-! Commands of the SX127x bridge. -/

def readRegister (addr : ℤ) : BridgeRequest := ⟨0x02, .ok [lowByte addr]⟩

def writeRegister (addr value : ℤ) : BridgeRequest := ⟨0x03, .ok [lowByte addr, lowByte value]⟩

def fifoWrite (bytes : List UInt8) : BridgeRequest := ⟨0x04, .ok bytes⟩

def fifoRead (count : ℤ) : BridgeRequest := ⟨0x05, .ok [lowByte count]⟩

/-! Commands of the SX126x bridge. -/

def execute (commandBytes : List UInt8) : BridgeRequest := ⟨0x02, .ok commandBytes⟩

def query (commandBytes : List UInt8) (expectedResponseLength : ℤ) : BridgeRequest :=
  ⟨0x03,
    if expectedResponseLength < 0 ∨ 0xff < expectedResponseLength then
      .error s!"expectedResponseLength out of range: {expectedResponseLength}"
    else .ok (lowByte expectedResponseLength :: commandBytes)⟩

end BridgeRequest

inductive BridgeDriver where
  | sx127x
  | sx126x (busyRetryBaseDelayMs busyRetryMaxDelayMs busyTimeoutMs : ℤ)

/-- What made the device send a frame. -/
inductive FrameOrigin where
  /-- Its response to the frame of an attempt. -/
  | response (attempt : ℕ)
  | unsolicited
  deriving DecidableEq

inductive BridgeFailure where
  | notEncoded (message : String)
  | timedOut (timer : ℕ)
  | stayedBusy
  deriving DecidableEq

/-- How the promise of a command was settled. -/
inductive CommandOutcome where
  | resolved (frame : BridgeFrame) (origin : FrameOrigin)
  | failed (failure : BridgeFailure)
  deriving DecidableEq

inductive CommandPhase where
  | waiting (attempt : ℕ)
  /-- Between two attempts at a busy chip. -/
  | backingOff
  deriving DecidableEq

structure RunningCommand where
  command : ℕ
  type : UInt8
  payload : List UInt8
  deadline : ℤ
  delay : ℤ

structure BridgeClient where
  /-- Commands are numbered as they are issued. -/
  issued : ℕ
  queue : List (ℕ × BridgeRequest)
  running : Option (RunningCommand × CommandPhase)
  pending : Option ℕ
  /-- Attempts whose timer is armed. -/
  timers : List ℕ
  /-- The command of each attempt, in order. -/
  attempts : List ℕ
  /-- Attempts whose frame was written and not answered yet. -/
  wire : List ℕ
  outcomes : List (ℕ × CommandOutcome)

inductive BridgeEvent where
  | issued (request : BridgeRequest)
  /-- The promise chain reaches the next command. -/
  | started (now : ℤ)
  /-- The backoff of the running command is over. -/
  | retried
  | frame (origin : FrameOrigin) (frame : BridgeFrame) (now : ℤ)
  | timerFired (attempt : ℕ)

namespace BridgeClient

def create : BridgeClient := ⟨0, [], none, none, [], [], [], []⟩

/-- The promise of the running command is settled. -/
def settle (s : BridgeClient) (command : ℕ) (outcome : CommandOutcome) : BridgeClient :=
  { s with running := none, outcomes := s.outcomes ++ [(command, outcome)] }

/-- `sendAndAwait` and `sendOnce`. A frame that cannot be encoded leaves the
SX127x client with the attempt pending and its timer armed. -/
def sendOnce (driver : BridgeDriver) (s : BridgeClient) (r : RunningCommand) : BridgeClient :=
  let attempt := s.attempts.length
  let armed := { s with
    attempts := s.attempts ++ [r.command]
    pending := some attempt
    timers := s.timers ++ [attempt] }
  match encodeBridgeFrame r.type r.payload, driver with
  | .ok _, _ =>
    { armed with wire := s.wire ++ [attempt], running := some (r, .waiting attempt) }
  | .error message, .sx127x => armed.settle r.command (.failed (.notEncoded message))
  | .error message, .sx126x .. =>
    settle { armed with pending := none, timers := s.timers } r.command
      (.failed (.notEncoded message))

def start (driver : BridgeDriver) (s : BridgeClient) (now : ℤ) : Option BridgeClient :=
  match s.running, s.queue with
  | none, (command, request) :: rest =>
    let next := { s with queue := rest }
    match request.payload, driver with
    | .error message, _ => some (next.settle command (.failed (.notEncoded message)))
    | .ok payload, .sx127x => some (next.sendOnce driver ⟨command, request.type, payload, 0, 0⟩)
    | .ok payload, .sx126x base _ timeout =>
      some (next.sendOnce driver ⟨command, request.type, payload, now + timeout, base⟩)
  | _, _ => none

def retry (driver : BridgeDriver) (s : BridgeClient) : Option BridgeClient :=
  match driver, s.running with
  | .sx126x _ maxDelay _, some (r, .backingOff) =>
    some (s.sendOnce driver { r with delay := min (r.delay * 2) maxDelay })
  | _, _ => none

/-- The awaited frame is there. -/
def resume (driver : BridgeDriver) (s : BridgeClient) (r : RunningCommand) (origin : FrameOrigin)
    (frame : BridgeFrame) (now : ℤ) : BridgeClient :=
  match driver with
  | .sx127x => s.settle r.command (.resolved frame origin)
  | .sx126x .. =>
    if frame.type ≠ statusBusy then s.settle r.command (.resolved frame origin)
    else if r.deadline ≤ now then s.settle r.command (.failed .stayedBusy)
    else { s with running := some (r, .backingOff) }

/-- Clear the timer of the attempt, and whatever is pending. -/
def release (s : BridgeClient) (attempt : ℕ) : BridgeClient :=
  { s with pending := none, timers := s.timers.erase attempt }

/-- `handleData`, for one frame: without a pending attempt it is dropped. -/
def handleFrame (driver : BridgeDriver) (s : BridgeClient) (origin : FrameOrigin)
    (frame : BridgeFrame) (now : ℤ) : BridgeClient :=
  match s.pending with
  | none => s
  | some attempt =>
    match s.running with
    | some (r, .waiting a) =>
      if a = attempt then (s.release attempt).resume driver r origin frame now
      else s.release attempt
    | _ => s.release attempt

/-- The timer of an attempt: it takes whatever is pending, and fails its own attempt. -/
def timeOut (s : BridgeClient) (attempt : ℕ) : BridgeClient :=
  match s.running with
  | some (r, .waiting a) =>
    if a = attempt then (s.release attempt).settle r.command (.failed (.timedOut attempt))
    else s.release attempt
  | _ => s.release attempt

def step (driver : BridgeDriver) (s : BridgeClient) : BridgeEvent → Option BridgeClient
  | .issued request =>
    some { s with issued := s.issued + 1, queue := s.queue ++ [(s.issued, request)] }
  | .started now => s.start driver now
  | .retried => s.retry driver
  | .frame .unsolicited frame now => some (s.handleFrame driver .unsolicited frame now)
  | .frame (.response attempt) frame now =>
    -- responses come in the order of the commands; one may be missing
    match s.wire.dropWhile fun a => a ≠ attempt with
    | [] => none
    | _ :: rest => some (handleFrame driver { s with wire := rest } (.response attempt) frame now)
  | .timerFired attempt => if attempt ∈ s.timers then some (s.timeOut attempt) else none

def system (driver : BridgeDriver) : System BridgeClient BridgeEvent where
  Init s := s = create
  step := step driver

/-- The attempt that the running command waits for. -/
def inFlight? (s : BridgeClient) : Option ℕ :=
  s.running.bind fun
    | (_, .waiting attempt) => some attempt
    | (_, .backingOff) => none

/-- Every command has its own frames and timers to itself. -/
structure Matched (s : BridgeClient) : Prop where
  /-- A command is resolved with the device's response to an attempt at it. -/
  resolved : ∀ command frame origin, (command, .resolved frame origin) ∈ s.outcomes →
    ∃ attempt, origin = .response attempt ∧ s.attempts[attempt]? = some command
  /-- A command times out by the timer of an attempt at it. -/
  timedOut : ∀ command timer, (command, .failed (.timedOut timer)) ∈ s.outcomes →
    s.attempts[timer]? = some command
  /-- Until then, the attempt in flight is the one that the next frame goes to. -/
  pending : ∀ attempt, s.inFlight? = some attempt →
    s.pending = some attempt ∧ attempt ∈ s.timers

/-- While an attempt is in flight, the only frame to arrive is the response to
it, and the only timer of the SX127x client to run out is its own. -/
def calm (driver : BridgeDriver) (s : BridgeClient) : BridgeEvent → Bool
  | .frame origin _ _ => s.inFlight?.all fun attempt => origin = .response attempt
  | .timerFired timer =>
    match driver with
    | .sx127x => s.inFlight?.all fun attempt => timer = attempt
    | .sx126x .. => true
  | _ => true

/-! ### One command at a time -/

/-- The outcome comes from an attempt at the command itself. -/
def Own (attempts : List ℕ) (command : ℕ) : CommandOutcome → Prop
  | .resolved _ origin => ∃ attempt, origin = .response attempt ∧ attempts[attempt]? = some command
  | .failed (.timedOut timer) => attempts[timer]? = some command
  | .failed _ => True

theorem getElem?_concat {attempts : List ℕ} {attempt command : ℕ} (next : ℕ)
    (h : attempts[attempt]? = some command) : (attempts ++ [next])[attempt]? = some command := by
  rw [List.getElem?_append_left (List.getElem?_eq_some_iff.mp h).1]
  exact h

theorem Own.concat {attempts : List ℕ} {command : ℕ} {outcome : CommandOutcome} (next : ℕ)
    (h : Own attempts command outcome) : Own (attempts ++ [next]) command outcome := by
  cases outcome with
  | resolved frame origin =>
    obtain ⟨attempt, horigin, hcommand⟩ := h
    exact ⟨attempt, horigin, getElem?_concat next hcommand⟩
  | failed failure =>
    cases failure with
    | notEncoded message => trivial
    | timedOut timer => exact getElem?_concat next h
    | stayedBusy => trivial

/-- What holds in a run in which nothing stray arrives at an attempt in flight. -/
structure Ordered (driver : BridgeDriver) (s : BridgeClient) : Prop where
  own : ∀ e ∈ s.outcomes, Own s.attempts e.1 e.2
  slot : ∀ r attempt, s.running = some (r, .waiting attempt) →
    s.pending = some attempt ∧ attempt ∈ s.timers ∧ s.attempts[attempt]? = some r.command
  timers : driver ≠ .sx127x → s.timers = s.inFlight?.toList

variable {driver : BridgeDriver} {s s' : BridgeClient}

theorem inFlight?_eq_some {attempt : ℕ} :
    s.inFlight? = some attempt ↔ ∃ r, s.running = some (r, .waiting attempt) := by
  unfold inFlight?
  cases s.running with
  | none => simp
  | some running =>
    obtain ⟨r, phase⟩ := running
    cases phase with
    | waiting a => simp
    | backingOff => simp

theorem Ordered.matched (h : s.Ordered driver) : s.Matched := by
  constructor
  · intro command frame origin hmem
    exact h.own _ hmem
  · intro command timer hmem
    exact h.own _ hmem
  · intro attempt hflight
    obtain ⟨r, hr⟩ := inFlight?_eq_some.mp hflight
    obtain ⟨hpending, htimer, -⟩ := h.slot r attempt hr
    exact ⟨hpending, htimer⟩

/-- Settling the running command, once its slot and its timer are free. -/
theorem Ordered.settle {command : ℕ} {outcome : CommandOutcome}
    (hown : ∀ e ∈ s.outcomes, Own s.attempts e.1 e.2)
    (htimers : driver ≠ .sx127x → s.timers = [])
    (houtcome : Own s.attempts command outcome) : (s.settle command outcome).Ordered driver := by
  constructor
  · intro e he
    rcases List.mem_append.mp he with hold | hnew
    · exact hown e hold
    · obtain rfl := List.mem_singleton.mp hnew
      exact houtcome
  · intro r attempt hr
    cases hr
  · exact htimers

theorem Ordered.sendOnce (h : s.Ordered driver) (hidle : s.inFlight? = none) (r : RunningCommand) :
    (s.sendOnce driver r).Ordered driver := by
  have htimers : driver ≠ .sx127x → s.timers = [] := by
    intro hdriver
    rw [h.timers hdriver, hidle]
    rfl
  have hown : ∀ e ∈ s.outcomes, Own (s.attempts ++ [r.command]) e.1 e.2 := by
    intro e he
    exact (h.own e he).concat r.command
  unfold BridgeClient.sendOnce
  cases hencode : encodeBridgeFrame r.type r.payload with
  | ok bytes =>
    constructor
    · exact hown
    · intro r' attempt hr
      obtain ⟨rfl, hphase⟩ := Prod.mk.inj (Option.some.inj hr)
      obtain rfl := CommandPhase.waiting.inj hphase
      exact ⟨rfl, by simp, by simp⟩
    · intro hdriver
      simp [htimers hdriver, inFlight?]
  | error message =>
    cases driver with
    | sx127x =>
      apply Ordered.settle hown
      · intro hdriver
        exact absurd rfl hdriver
      · trivial
    | sx126x base maxDelay timeout =>
      apply Ordered.settle hown
      · intro hdriver
        exact htimers hdriver
      · trivial

theorem Ordered.start (h : s.Ordered driver) {now : ℤ} (hstep : s.start driver now = some s') :
    s'.Ordered driver := by
  unfold BridgeClient.start at hstep
  cases hrunning : s.running with
  | some running => simp [hrunning] at hstep
  | none =>
    cases hqueue : s.queue with
    | nil => simp [hrunning, hqueue] at hstep
    | cons head rest =>
      obtain ⟨command, request⟩ := head
      have hidle : s.inFlight? = none := by simp [inFlight?, hrunning]
      have hnext : Ordered driver { s with queue := rest } := ⟨h.own, h.slot, h.timers⟩
      simp only [hrunning, hqueue] at hstep
      cases hpayload : request.payload with
      | error message =>
        simp only [hpayload] at hstep
        obtain rfl := Option.some.inj hstep
        refine Ordered.settle ?_ ?_ trivial
        · exact h.own
        · intro hdriver
          have htimers := h.timers hdriver
          rw [hidle] at htimers
          exact htimers
      | ok payload =>
        simp only [hpayload] at hstep
        cases driver with
        | sx127x =>
          obtain rfl := Option.some.inj hstep
          exact hnext.sendOnce hidle _
        | sx126x base maxDelay timeout =>
          obtain rfl := Option.some.inj hstep
          exact hnext.sendOnce hidle _

theorem Ordered.retry (h : s.Ordered driver) (hstep : s.retry driver = some s') :
    s'.Ordered driver := by
  unfold BridgeClient.retry at hstep
  split at hstep
  · rename_i r hrunning
    obtain rfl := Option.some.inj hstep
    exact h.sendOnce (by simp [inFlight?, hrunning]) _
  · cases hstep

/-- The frame of the attempt in flight settles it, or sends it into its backoff. -/
theorem Ordered.resume (h : s.Ordered driver) {r : RunningCommand} {attempt : ℕ}
    (hr : s.running = some (r, .waiting attempt)) (frame : BridgeFrame) (now : ℤ) :
    ((s.release attempt).resume driver r (.response attempt) frame now).Ordered driver := by
  obtain ⟨-, -, hcommand⟩ := h.slot r attempt hr
  have hresponse : Own s.attempts r.command (.resolved frame (.response attempt)) :=
    ⟨attempt, rfl, hcommand⟩
  have hempty : driver ≠ .sx127x → s.timers.erase attempt = [] := by
    intro hdriver
    rw [h.timers hdriver, inFlight?_eq_some.mpr ⟨r, hr⟩]
    simp
  unfold BridgeClient.resume
  cases driver with
  | sx127x => exact Ordered.settle h.own hempty hresponse
  | sx126x base maxDelay timeout =>
    dsimp only
    split_ifs
    · exact Ordered.settle h.own hempty hresponse
    · exact Ordered.settle h.own hempty trivial
    · constructor
      · exact h.own
      · intro r' a hr'
        cases hr'
      · exact hempty

/-- Nothing is lost by clearing a slot that no attempt in flight holds. -/
theorem Ordered.release (h : s.Ordered driver) (hidle : s.inFlight? = none) (attempt : ℕ) :
    (s.release attempt).Ordered driver := by
  constructor
  · exact h.own
  · intro r a hr
    have hflight := inFlight?_eq_some.mpr ⟨r, hr⟩
    change s.inFlight? = some a at hflight
    rw [hidle] at hflight
    cases hflight
  · intro hdriver
    have htimers := h.timers hdriver
    rw [hidle] at htimers
    change s.timers.erase attempt = s.inFlight?.toList
    rw [htimers, hidle]
    rfl

theorem Ordered.handleFrame (h : s.Ordered driver) {origin : FrameOrigin}
    (hcalm : ∀ attempt, s.inFlight? = some attempt → origin = .response attempt)
    (frame : BridgeFrame) (now : ℤ) : (s.handleFrame driver origin frame now).Ordered driver := by
  unfold BridgeClient.handleFrame
  cases hpending : s.pending with
  | none => exact h
  | some attempt =>
    dsimp only
    cases hrunning : s.running with
    | none => exact h.release (by simp [inFlight?, hrunning]) attempt
    | some running =>
      obtain ⟨r, phase⟩ := running
      cases phase with
      | backingOff => exact h.release (by simp [inFlight?, hrunning]) attempt
      | waiting a =>
        have hsame := (h.slot r a hrunning).1
        rw [hpending] at hsame
        obtain rfl := Option.some.inj hsame
        obtain rfl := hcalm attempt (inFlight?_eq_some.mpr ⟨r, hrunning⟩)
        dsimp only
        rw [if_pos rfl]
        exact h.resume hrunning frame now

theorem Ordered.timeOut (h : s.Ordered driver) {attempt : ℕ}
    (hown : ∀ a, s.inFlight? = some a → attempt = a) : (s.timeOut attempt).Ordered driver := by
  unfold BridgeClient.timeOut
  cases hrunning : s.running with
  | none => exact h.release (by simp [inFlight?, hrunning]) attempt
  | some running =>
    obtain ⟨r, phase⟩ := running
    cases phase with
    | backingOff => exact h.release (by simp [inFlight?, hrunning]) attempt
    | waiting a =>
      have hflight := inFlight?_eq_some.mpr ⟨r, hrunning⟩
      obtain rfl := hown a hflight
      dsimp only
      rw [if_pos rfl]
      apply Ordered.settle
      · exact h.own
      · intro hdriver
        change s.timers.erase attempt = []
        rw [h.timers hdriver, hflight]
        simp
      · exact (h.slot r attempt hrunning).2.2

theorem Ordered.step (h : s.Ordered driver) {event : BridgeEvent}
    (hcalm : s.calm driver event = true) (hstep : s.step driver event = some s') :
    s'.Ordered driver := by
  cases event with
  | issued request =>
    obtain rfl := Option.some.inj hstep
    exact ⟨h.own, h.slot, h.timers⟩
  | started now => exact h.start hstep
  | retried => exact h.retry hstep
  | frame origin frame now =>
    have horigin : ∀ attempt, s.inFlight? = some attempt → origin = .response attempt := by
      intro attempt hflight
      simpa [calm, hflight] using hcalm
    cases origin with
    | unsolicited =>
      obtain rfl := Option.some.inj hstep
      exact h.handleFrame horigin frame now
    | response attempt =>
      rw [BridgeClient.step] at hstep
      split at hstep
      · cases hstep
      · rename_i rest hwire
        obtain rfl := Option.some.inj hstep
        have hanswered : Ordered driver { s with wire := rest } := ⟨h.own, h.slot, h.timers⟩
        exact hanswered.handleFrame horigin frame now
  | timerFired timer =>
    rw [BridgeClient.step] at hstep
    split_ifs at hstep with harmed
    obtain rfl := Option.some.inj hstep
    apply h.timeOut
    intro attempt hflight
    cases driver with
    | sx127x => simpa [calm, hflight] using hcalm
    | sx126x base maxDelay timeout =>
      -- no other timer of this client is armed
      have htimers : s.timers = s.inFlight?.toList := h.timers (by simp)
      rw [htimers, hflight] at harmed
      simpa using harmed

theorem matched_of_calm
    (h : (system driver).ReachableUnder (fun s event => s.calm driver event = true) s) :
    s.Matched := by
  have hordered : s.Ordered driver := by
    apply h.invariant (I := fun s => s.Ordered driver)
    · rintro s rfl
      constructor
      · intro e he
        cases he
      · intro r attempt hr
        cases hr
      · intro _
        rfl
    · intro s event s' hs hcalm hstep
      exact hs.step hcalm hstep
  exact hordered.matched

/-! ### Late responses and left-over timers -/

def okFrame : BridgeFrame := ⟨0x00, []⟩

def busyFrame : BridgeFrame := ⟨statusBusy, []⟩

/-- The delays of the SX1262 transport when it is not given others. -/
def sx1262 : BridgeDriver := .sx126x 5 100 3000

/-- A command meets a busy chip once; a stray frame comes during its backoff. -/
def busyRun : List BridgeEvent :=
  [ .issued .reset, .started 0, .frame (.response 0) busyFrame 1,
    .frame .unsolicited okFrame 2, .retried, .frame (.response 1) okFrame 7 ]

theorem matched_of_calm_busyRun :
    ∃ s, (system sx1262).runUnder (calm sx1262) create busyRun = some s ∧
      s.outcomes = [(0, .resolved okFrame (.response 1))] ∧ s.Matched := by
  have hrun : ((system sx1262).runUnder (calm sx1262) create busyRun).map outcomes =
      some [(0, .resolved okFrame (.response 1))] := by
    decide
  obtain ⟨s, hs, houtcomes⟩ := Option.map_eq_some_iff.mp hrun
  exact ⟨s, hs, houtcomes, matched_of_calm (System.reachableUnder_of_runUnder rfl hs)⟩

/-- The first command times out; its response arrives when the second one waits. -/
def lateRun : List BridgeEvent :=
  [ .issued .reset, .issued .reset, .started 0, .timerFired 0, .started 2000,
    .frame (.response 0) okFrame 2001 ]

/-- The first command cannot be encoded; its timer runs out when the second one waits. -/
def staleRun : List BridgeEvent :=
  [ .issued (.fifoWrite (List.replicate 256 0)), .issued .reset, .started 0, .started 1,
    .timerFired 0 ]

/-- Both drivers resolve the second command with the response to the first, and
the SX127x driver takes its slot away by the timer of the first. -/
theorem mismatched :
    ¬(∀ s, (system .sx127x).Reachable s → s.Matched) ∧
    ¬(∀ s, (system sx1262).Reachable s → s.Matched) ∧
    ∃ s, (system .sx127x).Reachable s ∧ s.inFlight? = some 1 ∧ s.pending = none := by
  -- the second command is resolved by an attempt at the first
  have hlate : ∀ driver, (((system driver).run create lateRun).map fun s =>
      (s.outcomes, s.attempts)) =
        some ([(0, .failed (.timedOut 0)), (1, .resolved okFrame (.response 0))], [0, 1]) →
      ¬(∀ s, (system driver).Reachable s → s.Matched) := by
    intro driver hrun hclaim
    obtain ⟨s, hs, hlog⟩ := Option.map_eq_some_iff.mp hrun
    obtain ⟨houtcomes, hattempts⟩ := Prod.mk.inj hlog
    have hmatched := hclaim s (System.reachable_of_run rfl hs)
    obtain ⟨attempt, horigin, hcommand⟩ := hmatched.resolved 1 okFrame (.response 0) (by
      rw [houtcomes]
      simp)
    obtain rfl := FrameOrigin.response.inj horigin
    rw [hattempts] at hcommand
    simp at hcommand
  refine ⟨hlate _ (by decide), hlate _ (by decide), ?_⟩
  have hstale : (((system .sx127x).run create staleRun).map fun s => (s.inFlight?, s.pending)) =
      some (some 1, none) := by
    decide +kernel
  obtain ⟨s, hs, hslot⟩ := Option.map_eq_some_iff.mp hstale
  obtain ⟨hflight, hpending⟩ := Prod.mk.inj hslot
  exact ⟨s, System.reachable_of_run rfl hs, hflight, hpending⟩

end BridgeClient
end Arald
