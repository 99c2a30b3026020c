import Arald.Foundations.OrderedMap
import Arald.Foundations.Runs
import Arald.Maps.TerrainTiles

/-!
# World tiles in the browser

`BrowserTileStore` keeps decoded tiles in memory and loads those that a call of `ensure` asks for, a
few at a time, with workers that share the loads in flight. Every event is one turn of the event
loop. What the server, the clock and `isStale` answer is part of the events.
-/

namespace Arald

open Foundations

def retryAfterMs : ℤ := 20000

def maxFailed : ℕ := 2000

structure TileLoadError where
  message : String
  status : Option ℕ := none
  deriving DecidableEq

/-- What comes of a request: no answer or an unreadable one, an answer that is not `ok` with the
first 300 units of its body (none when this cannot be read), or a tile. -/
inductive TileReply
  | threw (message : String)
  | refused (status : ℕ) (detail : String)
  | decoded (tile : GeoTile)

/-- The promise of `fetchOne`, and whether it is still in flight. -/
structure TileFetch where
  tile : TileIndex
  result : Option (Except TileLoadError Unit) := none
  forgotten : Bool := false

/-- A worker of a call awaits a load, or a promise that was rejected at once, or has returned. -/
inductive TileWorker
  | loading (fetch : ℕ)
  | refused (error : TileLoadError)
  | returned

/-- A call of `ensure`. -/
structure EnsureCall where
  asked : List TileIndex
  queue : List TileIndex := []
  workers : List TileWorker := []
  total : ℕ := 0
  done : ℕ := 0
  firstError : Option TileLoadError := none
  /-- `isStale` was true for one of its workers. -/
  stale : Bool := false
  /-- How the call ended. -/
  outcome : Option (Except TileLoadError Unit) := none

structure BrowserTileStore where
  tiles : OrderedMap TileIndex GeoTile := .empty
  inflight : OrderedMap TileIndex ℕ := .empty
  failed : OrderedMap TileIndex (ℤ × TileLoadError) := .empty
  pinned : List TileIndex := []
  visible : List TileIndex := []
  /-- What the calls in progress asked for. -/
  activeKeeps : OrderedMap ℕ (List TileIndex) := .empty
  fetches : List TileFetch := []
  calls : List EnsureCall := []
  /-- What `now()` returns. -/
  clock : ℤ := 0

inductive TileStoreEvent
  | pin (tiles : List TileIndex)
  | setVisible (tiles : List TileIndex)
  | ensure (tiles : List TileIndex) (concurrency : Option ℤ) (stale : Bool)
  | settle (fetch : ℕ) (reply : TileReply)
  | forget (fetch : ℕ)
  | resume (call worker : ℕ) (stale : Bool)
  | finish (call : ℕ)
  | advance (clock : ℤ)

def EnsureCall.wanted (c : EnsureCall) : List TileIndex := c.asked.filter fun t => validTile t

def TileWorker.hasReturned : TileWorker → Bool
  | .returned => true
  | _ => false

/-- The first of two errors. -/
def EnsureCall.note (c : EnsureCall) (error : Option TileLoadError) : EnsureCall :=
  { c with firstError := c.firstError.or error, done := c.done + 1 }

/-- What `fetchOne` makes of a reply. -/
def readReply (t : TileIndex) : TileReply → Except TileLoadError GeoTile
  | .threw message => .error { message := s!"Tessera {t.tx}_{t.ty} non leggibile: {message}" }
  | .refused status detail =>
    .error ⟨if detail.isEmpty then s!"Terreno non disponibile (risposta {status})" else detail, some status⟩
  | .decoded tile =>
    if tile.tx ≠ t.tx ∨ tile.ty ≠ t.ty then
      .error { message := s!"La tessera ricevuta non è quella richiesta ({tile.tx}/{tile.ty} invece di {t.tx}/{t.ty})" }
    else .ok tile

namespace BrowserTileStore

variable (s : BrowserTileStore)

def has (t : TileIndex) : Bool := s.tiles.has t

def missing (tiles : List TileIndex) : List TileIndex := tiles.filter fun t => validTile t && !s.has t

def recentError (tiles : List TileIndex) : Option TileLoadError :=
  tiles.findSome? fun t => (s.failed.get? t).bind fun f =>
    if s.clock - f.1 < retryAfterMs then some f.2 else none

/-! ### The cap -/

/-- The tile is pinned, or visible, or asked for by a call in progress. -/
def isKept (t : TileIndex) : Bool :=
  s.pinned.contains t || s.visible.contains t || s.activeKeeps.values.any fun keep => keep.contains t

/-- The loop of `trim`, over the keys as they were. -/
def trimLoop (maxTiles : ℕ) (isKept : TileIndex → Bool) (tiles : OrderedMap TileIndex GeoTile) :
    List TileIndex → OrderedMap TileIndex GeoTile
  | [] => tiles
  | k :: keys =>
    if tiles.size ≤ maxTiles then tiles
    else if isKept k then trimLoop maxTiles isKept tiles keys
    else trimLoop maxTiles isKept (tiles.delete k) keys

def trim (maxTiles : ℕ) : BrowserTileStore :=
  if s.tiles.size ≤ maxTiles then s
  else { s with tiles := trimLoop maxTiles s.isKept s.tiles s.tiles.keys }

/-! ### Loads -/

/-- The failures, the newest of them `error`, without the oldest when they are too many. -/
def recordFailure (t : TileIndex) (error : TileLoadError) : OrderedMap TileIndex (ℤ × TileLoadError) :=
  let failed := s.failed.set t (s.clock, error)
  if maxFailed < failed.size then
    match failed.oldest? with
    | some k => failed.delete k
    | none => failed
  else failed

/-- The last turn of `fetchOne`. -/
def settle (maxTiles id : ℕ) (f : TileFetch) (reply : TileReply) : BrowserTileStore :=
  match readReply f.tile reply with
  | .ok tile =>
    { s with
      fetches := s.fetches.set id { f with result := some (.ok ()) }
      tiles := s.tiles.set f.tile tile
      failed := s.failed.delete f.tile }.trim maxTiles
  | .error error =>
    { s with
      fetches := s.fetches.set id { f with result := some (.error error) }
      failed := s.recordFailure f.tile error }

/-- The load of a tile that has not failed just now, joined or begun. -/
def join (t : TileIndex) : BrowserTileStore × TileWorker :=
  match s.inflight.get? t with
  | some id => (s, .loading id)
  | none =>
    ({ s with fetches := s.fetches ++ [{ tile := t }], inflight := s.inflight.set t s.fetches.length },
      .loading s.fetches.length)

def load (t : TileIndex) : BrowserTileStore × TileWorker :=
  match s.failed.get? t with
  | some (failedAt, error) => if s.clock - failedAt < retryAfterMs then (s, .refused error) else s.join t
  | none => s.join t

/-! ### Calls -/

/-- The loop of a worker up to its next `await`, and the call as it leaves it. -/
def turn (c : EnsureCall) (stale : Bool) : BrowserTileStore × EnsureCall × TileWorker :=
  match c.queue with
  | [] => (s, c, .returned)
  | t :: queue =>
    if stale then (s, { c with queue, stale }, .returned)
    else ((s.load t).1, { c with queue }, (s.load t).2)

/-- The first turns of so many workers. -/
def start (stale : Bool) : ℕ → BrowserTileStore → EnsureCall → BrowserTileStore × EnsureCall
  | 0, s, c => (s, c)
  | n + 1, s, c =>
    let r := s.turn c stale
    start stale n r.1 { r.2.1 with workers := r.2.1.workers ++ [r.2.2] }

def ensure (tiles : List TileIndex) (concurrency : Option ℤ) (stale : Bool) : BrowserTileStore :=
  let wanted := tiles.filter fun t => validTile t
  let todo := wanted.filter fun t => !s.has t
  if todo.length = 0 then { s with calls := s.calls ++ [{ asked := tiles, outcome := some (.ok ()) }] }
  else
    let kept := { s with activeKeeps := s.activeKeeps.set s.calls.length wanted }
    let r := start stale (min (concurrency.getD 4) todo.length).toNat kept
      { asked := tiles, queue := todo, total := todo.length }
    { r.1 with calls := r.1.calls ++ [r.2] }

/-- What a worker gets from what it awaits, once that is settled: nothing or an error. -/
def awaited : TileWorker → Option (Option TileLoadError)
  | .loading id => (s.fetches[id]?).bind fun f =>
    if f.forgotten then f.result.map fun
      | .ok _ => none
      | .error error => some error
    else none
  | .refused error => some (some error)
  | .returned => none

def step (maxTiles : ℕ) : TileStoreEvent → Option BrowserTileStore
  | .pin tiles => some { s with pinned := tiles }
  | .setVisible tiles => some { s with visible := tiles }
  | .ensure tiles concurrency stale => some (s.ensure tiles concurrency stale)
  | .settle id reply => do
    let f ← s.fetches[id]?
    if f.result.isSome then none else some (s.settle maxTiles id f reply)
  | .forget id => do
    let f ← s.fetches[id]?
    if f.result.isSome && !f.forgotten then
      some { s with fetches := s.fetches.set id { f with forgotten := true }, inflight := s.inflight.delete f.tile }
    else none
  | .resume id i stale => do
    let c ← s.calls[id]?
    let w ← c.workers[i]?
    let error ← s.awaited w
    let r := s.turn (c.note error) stale
    some { r.1 with calls := r.1.calls.set id { r.2.1 with workers := r.2.1.workers.set i r.2.2 } }
  | .finish id => do
    let c ← s.calls[id]?
    if c.outcome.isNone && c.workers.all TileWorker.hasReturned then
      some { s with
        activeKeeps := s.activeKeeps.delete id
        calls := s.calls.set id { c with outcome := some (match c.firstError with
          | some error => .error error
          | none => .ok ()) } }
    else none
  | .advance clock => some { s with clock }

end BrowserTileStore

/-- A store in memory, from its construction on. -/
def browserTileStore (maxTiles : ℕ) : System BrowserTileStore TileStoreEvent where
  Init s := ∃ clock, s = { clock }
  step s := s.step maxTiles

end Arald
