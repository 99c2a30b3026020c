import Arald.Foundations.OrderedMap
import Arald.Foundations.Runs
import Arald.Content.Metadata
import Arald.Maps.GeoTiles

/-!
# The tile service

The server's half of the tiles: one build at a time for each tile, a bounded number of slots for
what works underneath, a queue for them, and a cap on what is built in an hour. A build is a record
with the state of its request, of its work, and of its timers, and every event is one turn of the
event loop. What the sources, the disk and the clocks do is part of the events.
-/

namespace Arald

open Foundations

/-- The limits of a service, as its constructor leaves them. -/
structure TileLimits where
  concurrency : ℕ
  maxQueue : ℕ
  maxNewPerHour : ℕ
  buildTimeoutMs : ℕ
  concurrency_pos : 0 < concurrency

/-- The limits that the options of a service ask for. -/
def TileLimits.ofOptions (concurrency maxQueue maxNewPerHour : Option ℤ) (buildTimeoutMs : Option ℕ) : TileLimits where
  concurrency := max 1 (concurrency.getD 4).toNat
  maxQueue := (maxQueue.getD 64).toNat
  maxNewPerHour := (maxNewPerHour.getD 400).toNat
  buildTimeoutMs := buildTimeoutMs.getD 180000
  concurrency_pos := Nat.lt_of_lt_of_le Nat.zero_lt_one (le_max_left _ _)

structure TileServiceError where
  status : ℕ
  message : String
  retryAfterS : Option ℤ := none
  deriving DecidableEq

abbrev TileOutcome := Except TileServiceError Buffer

def hourMs : ℤ := 3600000

def maxFailuresPerHour : ℕ := 100

/-! ### Builds -/

/-- The request of a build: waiting for a slot, with one, waiting for its work or the time limit,
with the first of these (`none` for a tile), and over. It is published when it is no longer in
flight. -/
inductive Request
  | waiting
  | acquired
  | racing
  | raced (failure : Option String)
  | settled (outcome : TileOutcome)
  | published (outcome : TileOutcome)

/-- What works underneath, from the time it began. -/
inductive Work
  | idle
  | running (since : ℕ)
  | done

structure Build where
  tile : TileIndex
  request : Request
  work : Work := .idle
  /-- When its slot was acquired, until it is released. -/
  slotSince : Option ℕ := none
  /-- When the timers are due. -/
  timeout : Option ℕ := none
  fallback : Option ℕ := none

/-- A caller that awaits a build, and what it got. -/
structure TileCall where
  build : ℕ
  answer : Option TileOutcome := none

structure TileServiceState where
  running : ℤ := 0
  inProgress : ℤ := 0
  waiting : List ℕ := []
  builtAt : List ℤ := []
  failedAt : List ℤ := []
  inflight : OrderedMap TileIndex ℕ := .empty
  builds : List Build := []
  calls : List TileCall := []
  /-- The time of the timers. -/
  time : ℕ := 0
  /-- What `now()` returns. -/
  clock : ℤ
  /-- All that was ever added to `builtAt`. -/
  built : List ℤ := []

/-- What the disk does when a tile has been built. -/
inductive Disk
  | putFails (message : String)
  | readFails (message : String)
  | read (data : Buffer)

/-- A turn of the event loop for one build. -/
inductive BuildEvent
  | begin
  | settle (failure : Option String)
  | timeout
  | fallback
  | release
  | resume (disk : Disk)
  | forget

inductive TileEvent
  | get (tile : TileIndex) (cached : Bool)
  | on (id : ℕ) (event : BuildEvent)
  | answer (call : ℕ)
  | advance (time : ℕ) (clock : ℤ)

def Request.isWaiting : Request → Bool
  | .waiting => true
  | _ => false

/-- The build is one that `inProgress` counts. -/
def Request.isBusy : Request → Bool
  | .settled _ => false
  | .published _ => false
  | _ => true

def Request.outcome? : Request → Option TileOutcome
  | .published outcome => some outcome
  | _ => none

/-- The first to settle decides the race. -/
def Request.race (failure : Option String) : Request → Request
  | .racing => .raced failure
  | request => request

def Build.hasSlot (b : Build) : Bool := b.slotSince.isSome

/-! ### The turns -/

namespace TileServiceState

variable (limits : TileLimits)

def setBuild (s : TileServiceState) (id : ℕ) (b : Build) : TileServiceState := { s with builds := s.builds.set id b }

def prune (now : ℤ) (times : List ℤ) : List ℤ := times.dropWhile fun t => hourMs ≤ now - t

/-- `Math.ceil(n / d)`. -/
def ceilDiv (n d : ℤ) : ℤ := (n + d - 1) / d

/-- The refusals of a build, in their order. -/
def refusal (s : TileServiceState) : Option TileServiceError :=
  if limits.maxNewPerHour ≤ s.builtAt.length + s.inProgress then
    let wait := match s.builtAt with
      | [] => 3600
      | first :: _ => max 1 (ceilDiv (first + hourMs - s.clock) 1000)
    some ⟨429, s!"Troppe tessere nuove nell'ultima ora (massimo {limits.maxNewPerHour}): riprova tra " ++
      s!"{ceilDiv wait 60} minuti o usa «npm run map-tiles»", some wait⟩
  else if maxFailuresPerHour ≤ s.failedAt.length then
    some ⟨429, "Troppi tentativi falliti nell'ultima ora: le fonti di terreno non rispondono, riprova più tardi", some 300⟩
  else if limits.concurrency ≤ s.running ∧ limits.maxQueue ≤ s.waiting.length then
    some ⟨429, "Troppe richieste in coda: riprova tra poco", some 5⟩
  else none

/-- The new build, and the counters it changes. -/
def acquire (s : TileServiceState) (tile : TileIndex) : TileServiceState :=
  if s.running < limits.concurrency then
    { s with
      running := s.running + 1
      builds := s.builds ++ [{ tile, request := .acquired, slotSince := some s.time }] }
  else
    { s with
      waiting := s.waiting ++ [s.builds.length]
      builds := s.builds ++ [{ tile, request := .waiting }] }

/-- `build(t)` up to its first `await`. -/
def build (s : TileServiceState) (tile : TileIndex) : TileServiceState :=
  let s := { s with builtAt := prune s.clock s.builtAt, failedAt := prune s.clock s.failedAt }
  match s.refusal limits with
  | some error => { s with builds := s.builds ++ [{ tile, request := .settled (.error error) }] }
  | none => { s with inProgress := s.inProgress + 1 }.acquire limits tile

/-- A valid tile that is not cached: the caller joins the build in flight or a new one. -/
def get (s : TileServiceState) (tile : TileIndex) : TileServiceState :=
  match s.inflight.get? tile with
  | some id => { s with calls := s.calls ++ [{ build := id }] }
  | none =>
    let id := s.builds.length
    let s := s.build limits tile
    { s with inflight := s.inflight.set tile id, calls := s.calls ++ [{ build := id }] }

/-- `release()`, which hands the slot to the first that waits. -/
def release (s : TileServiceState) : TileServiceState :=
  let s := { s with running := s.running - 1 }
  match s.waiting with
  | [] => s
  | next :: rest =>
    match s.builds[next]? with
    | none => { s with waiting := rest }
    | some b =>
      { s with waiting := rest, running := s.running + 1 }.setBuild next
        { b with request := .acquired, slotSince := some s.time }

/-- `releaseOnce()` of a build. -/
def releaseOnce (s : TileServiceState) (id : ℕ) (b : Build) : TileServiceState :=
  if b.hasSlot then (s.setBuild id { b with slotSince := none }).release else s.setBuild id b

/-- The request of a build goes on after the race. -/
def finish (s : TileServiceState) (id : ℕ) (b : Build) (failure : Option String) (disk : Disk) : TileServiceState :=
  let fail (message : String) : TileServiceState :=
    { s.setBuild id { b with request := .settled (.error ⟨502, "Costruzione della tessera non riuscita (fonti non raggiungibili o dati assenti): " ++ message, none⟩) } with
      failedAt := s.failedAt ++ [s.clock]
      inProgress := s.inProgress - 1 }
  let succeed (outcome : TileOutcome) : TileServiceState :=
    { s.setBuild id { b with request := .settled outcome } with
      inProgress := s.inProgress - 1
      builtAt := s.builtAt ++ [s.clock]
      built := s.built ++ [s.clock] }
  match failure, disk with
  | some message, _ => fail message
  | none, .putFails message => fail message
  | none, .readFails message => succeed (.error ⟨500, "Lettura della cache locale non riuscita: " ++ message, none⟩)
  | none, .read data => succeed (.ok data)

/-- `tempo scaduto`, after the time limit. -/
def timedOut : String := s!"tempo scaduto dopo {(limits.buildTimeoutMs + 500) / 1000} s"

def stepBuild (s : TileServiceState) (id : ℕ) (b : Build) : BuildEvent → Option TileServiceState
  | .begin =>
    match b.request with
    | .acquired => some (s.setBuild id
        { b with
          request := .racing
          work := .running s.time
          timeout := some (s.time + limits.buildTimeoutMs)
          fallback := some (s.time + limits.buildTimeoutMs * 2) })
    | _ => none
  | .settle failure =>
    match b.work with
    | .running _ => some (s.setBuild id { b with work := .done, request := b.request.race failure })
    | _ => none
  | .timeout =>
    if b.timeout.any fun due => due ≤ s.time then
      some (s.setBuild id { b with timeout := none, request := b.request.race (some (timedOut limits)) })
    else none
  | .fallback =>
    if b.fallback.any fun due => due ≤ s.time then some (s.releaseOnce id { b with fallback := none }) else none
  | .release =>
    match b.work with
    | .done => some (s.releaseOnce id b)
    | _ => none
  | .resume disk =>
    match b.request with
    | .raced failure => some (s.finish id { b with timeout := none, fallback := none } failure disk)
    | _ => none
  | .forget =>
    match b.request with
    | .settled outcome =>
      some { s.setBuild id { b with request := .published outcome } with inflight := s.inflight.delete b.tile }
    | _ => none

def step (s : TileServiceState) : TileEvent → Option TileServiceState
  | .get tile cached => if validTile tile = false ∨ cached then some s else some (s.get limits tile)
  | .on id event => s.builds[id]?.bind fun b => s.stepBuild limits id b event
  | .answer i => do
    let call ← s.calls[i]?
    let b ← s.builds[call.build]?
    let outcome ← b.request.outcome?
    some { s with calls := s.calls.set i { call with answer := some outcome } }
  | .advance time clock => if s.time ≤ time ∧ s.clock ≤ clock then some { s with time, clock } else none

end TileServiceState

/-- The service, from its construction on. -/
def tileService (limits : TileLimits) : System TileServiceState TileEvent where
  Init s := ∃ clock, s = { clock }
  step := TileServiceState.step limits

end Arald
