import Arald.Foundations.JsValue
import Arald.Foundations.Runs
import Arald.Foundations.Tables

/-!
# Outgoing sends by priority

`PriorityQueue` keeps one list per level and a cached count. A transport's send
appends to it and starts the drain loop unless the loop is already running. The
loop runs without interruption from one write to the next, so a step of the
model goes from one suspension of the loop to the following one: a send, the end
of the pending write, or the synchronous `stop` of the radio transports.

Each accepted send carries a number, and whatever leaves the queue is logged
with what was waiting behind it.
-/

namespace Arald

open Foundations

/-- `PriorityQueue<T>`. -/
structure PriorityQueue (α : Type*) where
  levels : ℕ
  buckets : List (List α)
  count : ℤ
  deriving DecidableEq

namespace PriorityQueue

variable {α : Type*}

/-- `new PriorityQueue(levels)`. -/
def new (levels : ℕ) : PriorityQueue α := ⟨levels, List.replicate levels [], 0⟩

/-- The bucket of a priority: anything but an integer in range goes to the last one. -/
def level (levels : ℕ) : JsNumber → ℕ
  | .finite q => if q.den = 1 ∧ 0 ≤ q ∧ q < levels then q.num.toNat else levels - 1
  | _ => levels - 1

/-- `none` when `buckets[index]` is undefined and `push` throws. -/
def enqueue (q : PriorityQueue α) (priority : JsNumber) (item : α) : Option (PriorityQueue α) :=
  let index := level q.levels priority
  q.buckets[index]?.map fun bucket =>
    { q with buckets := q.buckets.set index (bucket ++ [item]), count := q.count + 1 }

/-- The first item of the first bucket that has one, and the buckets without it. -/
def shiftFirst : List (List α) → Option (α × List (List α))
  | [] => none
  | [] :: buckets => (shiftFirst buckets).map fun taken => (taken.1, [] :: taken.2)
  | (item :: bucket) :: buckets => some (item, bucket :: buckets)

def dequeue (q : PriorityQueue α) : Option (α × PriorityQueue α) :=
  (shiftFirst q.buckets).map fun taken =>
    (taken.1, { q with buckets := taken.2, count := q.count - 1 })

/-- `get size()`. -/
def size (q : PriorityQueue α) : ℤ := q.count

/-- The items of all buckets, the most urgent bucket first. -/
def waiting (q : PriorityQueue α) : List α := q.buckets.flatten

theorem level_lt {levels : ℕ} (hlevels : 0 < levels) (priority : JsNumber) :
    level levels priority < levels := by
  cases priority with
  | finite q =>
    rw [level]
    split_ifs with h
    · obtain ⟨hden, hnonneg, hlt⟩ := h
      have hq : (q.num : ℚ) = q := Rat.coe_int_num_of_den_eq_one hden
      rw [← hq] at hnonneg hlt
      have hnum : 0 ≤ q.num := by exact_mod_cast hnonneg
      have hnum' : q.num < levels := by exact_mod_cast hlt
      omega
    · omega
  | nan => exact Nat.sub_lt hlevels Nat.one_pos
  | posInf => exact Nat.sub_lt hlevels Nat.one_pos
  | negInf => exact Nat.sub_lt hlevels Nat.one_pos

theorem shiftFirst_eq_none {buckets : List (List α)} (h : shiftFirst buckets = none) :
    buckets.flatten = [] := by
  induction buckets with
  | nil => rfl
  | cons bucket buckets ih =>
    cases bucket with
    | nil => exact ih (Option.map_eq_none_iff.mp h)
    | cons item bucket => cases h

theorem shiftFirst_flatten {buckets rest : List (List α)} {item : α}
    (h : shiftFirst buckets = some (item, rest)) : buckets.flatten = item :: rest.flatten := by
  induction buckets generalizing rest with
  | nil => cases h
  | cons bucket buckets ih =>
    cases bucket with
    | nil =>
      obtain ⟨⟨item', rest'⟩, htaken, heq⟩ := Option.map_eq_some_iff.mp h
      cases heq
      have hrest := ih htaken
      exact hrest
    | cons first bucket =>
      cases h
      rfl

/-- Taking an item leaves every bucket a final part of what it was. -/
theorem shiftFirst_suffix {buckets rest : List (List α)} {item : α}
    (h : shiftFirst buckets = some (item, rest)) :
    rest.length = buckets.length ∧
      ∀ (i : ℕ) (b : List α), rest[i]? = some b → ∃ b', buckets[i]? = some b' ∧ b <:+ b' := by
  induction buckets generalizing rest with
  | nil => cases h
  | cons bucket buckets ih =>
    cases bucket with
    | nil =>
      obtain ⟨⟨item', rest'⟩, htaken, heq⟩ := Option.map_eq_some_iff.mp h
      cases heq
      obtain ⟨hlength, hsuffix⟩ := ih htaken
      refine ⟨congrArg Nat.succ hlength, fun i b hb => ?_⟩
      cases i with
      | zero => exact ⟨[], rfl, (Option.some.inj hb) ▸ List.suffix_rfl⟩
      | succ i => exact hsuffix i b hb
    | cons first bucket =>
      cases h
      refine ⟨rfl, fun i b hb => ?_⟩
      cases i with
      | zero => exact ⟨item :: bucket, rfl, (Option.some.inj hb) ▸ List.suffix_cons item bucket⟩
      | succ i => exact ⟨b, hb, List.suffix_rfl⟩

theorem flatten_set_append {buckets : List (List α)} {i : ℕ} {bucket : List α}
    (h : buckets[i]? = some bucket) (item : α) :
    (buckets.set i (bucket ++ [item])).flatten.Perm (buckets.flatten ++ [item]) := by
  induction buckets generalizing i with
  | nil => cases h
  | cons first buckets ih =>
    cases i with
    | zero =>
      cases h
      rw [List.set_cons_zero, List.flatten_cons, List.flatten_cons, List.append_assoc,
        List.append_assoc]
      exact List.perm_append_comm.append_left bucket
    | succ i =>
      rw [List.set_cons_succ, List.flatten_cons, List.flatten_cons, List.append_assoc]
      exact (ih h).append_left first

/-- What the buckets of a queue hold: the items of their level, in order of arrival. -/
structure Ordered (levelOf : α → ℕ) (earlier : α → α → Prop) (q : PriorityQueue α) : Prop where
  buckets_length : q.buckets.length = q.levels
  counted : q.count = q.waiting.length
  levelled : ∀ (i : ℕ) (b : List α), q.buckets[i]? = some b → ∀ x ∈ b, levelOf x = i
  arrived : ∀ (i : ℕ) (b : List α), q.buckets[i]? = some b → b.Pairwise earlier

variable {levelOf : α → ℕ} {earlier : α → α → Prop} {q q' : PriorityQueue α}

theorem ordered_new (levels : ℕ) : (new levels : PriorityQueue α).Ordered levelOf earlier := by
  have hempty : ∀ (i : ℕ) (b : List α), (List.replicate levels [])[i]? = some b → b = [] :=
    fun i b hb => List.eq_of_mem_replicate (List.mem_of_getElem? hb)
  refine ⟨List.length_replicate, ?_, fun i b hb x hx => ?_, fun i b hb => ?_⟩
  · rw [waiting, new, List.flatten_replicate_nil]
    rfl
  · rw [hempty i b hb] at hx
    cases hx
  · rw [hempty i b hb]
    exact .nil

/-- The items wait by level, and by arrival within a level. -/
theorem Ordered.waiting_pairwise (h : q.Ordered levelOf earlier) :
    q.waiting.Pairwise fun x y => levelOf x < levelOf y ∨ levelOf x = levelOf y ∧ earlier x y := by
  refine List.pairwise_flatten.mpr ⟨fun b hb => ?_, List.pairwise_iff_getElem.mpr ?_⟩
  · obtain ⟨i, hi⟩ := List.mem_iff_getElem?.mp hb
    refine (h.arrived i b hi).imp_of_mem fun hx hy hearlier => Or.inr ⟨?_, hearlier⟩
    rw [h.levelled i b hi _ hx, h.levelled i b hi _ hy]
  · intro i j hi hj hij x hx y hy
    have hxi := h.levelled i _ (List.getElem?_eq_getElem hi) x hx
    have hyj := h.levelled j _ (List.getElem?_eq_getElem hj) y hy
    exact Or.inl (by omega)

theorem dequeue_eq_none (h : q.dequeue = none) : q.waiting = [] :=
  shiftFirst_eq_none (Option.map_eq_none_iff.mp h)

theorem dequeue_waiting {item : α} (h : q.dequeue = some (item, q')) :
    q.waiting = item :: q'.waiting ∧ q'.levels = q.levels := by
  obtain ⟨⟨item', rest⟩, htaken, heq⟩ := Option.map_eq_some_iff.mp h
  cases heq
  exact ⟨shiftFirst_flatten htaken, rfl⟩

theorem Ordered.dequeue {item : α} (h : q.Ordered levelOf earlier)
    (htake : q.dequeue = some (item, q')) : q'.Ordered levelOf earlier := by
  have hwaiting := (dequeue_waiting htake).1
  obtain ⟨⟨item', rest⟩, htaken, heq⟩ := Option.map_eq_some_iff.mp htake
  cases heq
  obtain ⟨hlength, hsuffix⟩ := shiftFirst_suffix htaken
  refine ⟨hlength.trans h.buckets_length, ?_, fun i b hb x hx => ?_, fun i b hb => ?_⟩
  · have hcounted := h.counted
    rw [hwaiting, List.length_cons] at hcounted
    change q.count - 1 = _
    omega
  · obtain ⟨b', hb', hsub⟩ := hsuffix i b hb
    exact h.levelled i b' hb' x (hsub.subset hx)
  · obtain ⟨b', hb', hsub⟩ := hsuffix i b hb
    exact (h.arrived i b' hb').sublist hsub.sublist

theorem enqueue_waiting {priority : JsNumber} {item : α}
    (h : q.enqueue priority item = some q') :
    q'.waiting.Perm (q.waiting ++ [item]) ∧ q'.levels = q.levels := by
  obtain ⟨bucket, hbucket, heq⟩ := Option.map_eq_some_iff.mp h
  cases heq
  exact ⟨flatten_set_append hbucket item, rfl⟩

/-- With at least one level no priority is refused. -/
theorem Ordered.exists_enqueue (h : q.Ordered levelOf earlier) (hlevels : 0 < q.levels)
    (priority : JsNumber) (item : α) : ∃ q', q.enqueue priority item = some q' := by
  have hlt : level q.levels priority < q.buckets.length :=
    h.buckets_length ▸ level_lt hlevels priority
  exact ⟨_, Option.map_eq_some_iff.mpr ⟨_, List.getElem?_eq_getElem hlt, rfl⟩⟩

theorem Ordered.enqueue {priority : JsNumber} {item : α} (h : q.Ordered levelOf earlier)
    (hitem : levelOf item = level q.levels priority)
    (hlast : ∀ x ∈ q.waiting, earlier x item)
    (hput : q.enqueue priority item = some q') : q'.Ordered levelOf earlier := by
  have hwaiting := (enqueue_waiting hput).1
  obtain ⟨bucket, hbucket, heq⟩ := Option.map_eq_some_iff.mp hput
  cases heq
  refine ⟨(List.length_set ..).trans h.buckets_length, ?_, ?_, ?_⟩
  · rw [hwaiting.length_eq, List.length_append, List.length_singleton, Nat.cast_add, Nat.cast_one,
      ← h.counted]
  · refine (forall_set hbucket).mpr ⟨fun x hx => ?_, fun j b _ hb => h.levelled j b hb⟩
    rcases List.mem_append.mp hx with hx | hx
    · exact h.levelled _ bucket hbucket x hx
    · exact List.mem_singleton.mp hx ▸ hitem
  · refine (forall_set hbucket).mpr ⟨?_, fun j b _ hb => h.arrived j b hb⟩
    refine List.pairwise_append.mpr
      ⟨h.arrived _ bucket hbucket, List.pairwise_singleton .., fun x hx y hy => ?_⟩
    exact List.mem_singleton.mp hy ▸
      hlast x (List.mem_flatten.mpr ⟨bucket, List.mem_of_getElem? hbucket, hx⟩)

end PriorityQueue

/-! ### The drain loop -/

/-- A queued send: its packet's priority, and its number among the accepted sends. -/
structure QueuedSend where
  number : ℕ
  priority : JsNumber
  deriving DecidableEq

/-- `writing` is the send whose write the loop awaits. -/
structure SendQueueState where
  queue : PriorityQueue QueuedSend
  draining : Bool
  writing : Option QueuedSend
  sent : List QueuedSend
  out : List (QueuedSend × List QueuedSend)
  deriving DecidableEq

inductive SendEvent
  | send (priority : JsNumber) (alive : Bool)
  | wrote (alive : Bool)
  | stop

namespace SendQueueState

open PriorityQueue

/-- `next = queue.dequeue()`. -/
def takeNext (s : SendQueueState) : Option (QueuedSend × SendQueueState) :=
  s.queue.dequeue.map fun taken =>
    (taken.1, { s with queue := taken.2, out := s.out ++ [(taken.1, taken.2.waiting)] })

/-- The loop of `drainQueue`, up to the next write: a dead socket rejects everything. -/
def drain (alive : Bool) : ℕ → SendQueueState → SendQueueState
  | 0, s => s
  | fuel + 1, s =>
    match s.takeNext with
    | none => { s with draining := false }
    | some (next, s) => if alive then { s with writing := some next } else drain alive fuel s

/-- The loop of `stop`. -/
def rejectAll : ℕ → SendQueueState → SendQueueState
  | 0, s => s
  | fuel + 1, s =>
    match s.takeNext with
    | none => s
    | some (_, s) => rejectAll fuel s

def drainQueue (alive : Bool) (s : SendQueueState) : SendQueueState :=
  if s.draining then s
  else drain alive (s.queue.waiting.length + 1) { s with draining := true }

/-- A refused send and one whose `enqueue` throws leave the state alone. -/
def send (maxQueued : ℤ) (priority : JsNumber) (alive : Bool) (s : SendQueueState) :
    SendQueueState :=
  if !alive then s
  else if maxQueued ≤ s.queue.size then s
  else
    let item := ⟨s.sent.length, priority⟩
    match s.queue.enqueue priority item with
    | none => s
    | some queue => drainQueue alive { s with queue, sent := s.sent ++ [item] }

def step (maxQueued : ℤ) (s : SendQueueState) : SendEvent → Option SendQueueState
  | .send priority alive => some (s.send maxQueued priority alive)
  | .wrote alive =>
    s.writing.map fun _ => drain alive (s.queue.waiting.length + 1) { s with writing := none }
  | .stop => some (rejectAll s.queue.waiting.length s)

def start (levels : ℕ) : SendQueueState := ⟨.new levels, false, none, [], []⟩

end SendQueueState

/-- A transport's outgoing queue to one peer. -/
def sendQueue (levels : ℕ) (maxQueued : ℤ) : System SendQueueState SendEvent where
  Init s := s = SendQueueState.start levels
  step := SendQueueState.step maxQueued

namespace SendQueueState

open PriorityQueue

variable {levels : ℕ} {maxQueued : ℤ} {s s' : SendQueueState}

/-- What has come out of the queue, oldest first. -/
def items (s : SendQueueState) : List QueuedSend := s.out.map Prod.fst

def urgency (levels : ℕ) (x : QueuedSend) : ℕ := level levels x.priority

/-- Every accepted send has come out or waits, in the order the levels prescribe. -/
structure Accounted (levels : ℕ) (s : SendQueueState) : Prop where
  queue_levels : s.queue.levels = levels
  ordered : s.queue.Ordered (urgency levels) fun x y => x.number < y.number
  numbered : s.sent.map QueuedSend.number = List.range s.sent.length
  kept : (s.items ++ s.queue.waiting).Perm s.sent
  urgent : ∀ taken ∈ s.out, ∀ y ∈ taken.2, urgency levels taken.1 ≤ urgency levels y
  arrived : (s.items ++ s.queue.waiting).Pairwise fun x y =>
    urgency levels x = urgency levels y → x.number < y.number

/-- The loop runs exactly while a write is pending, and ends on an empty queue. -/
structure Drained (s : SendQueueState) : Prop where
  draining_eq : s.draining = s.writing.isSome
  empty : s.writing = none → s.queue.waiting = []

theorem accounted_start (levels : ℕ) : (start levels).Accounted levels := by
  have hwaiting : (start levels).queue.waiting = [] := by
    rw [start, PriorityQueue.new, waiting, List.flatten_replicate_nil]
  refine ⟨rfl, ordered_new levels, rfl, ?_, fun taken htaken => ?_, ?_⟩
  · rw [hwaiting]
    exact .nil
  · cases htaken
  · rw [hwaiting]
    exact .nil

theorem Accounted.number_lt (h : s.Accounted levels) {x : QueuedSend}
    (hx : x ∈ s.items ++ s.queue.waiting) : x.number < s.sent.length := by
  have hmem : x.number ∈ s.sent.map QueuedSend.number :=
    List.mem_map_of_mem (h.kept.mem_iff.mp hx)
  rw [h.numbered] at hmem
  exact List.mem_range.mp hmem

theorem takeNext_eq_none (h : s.takeNext = none) : s.queue.waiting = [] :=
  dequeue_eq_none (Option.map_eq_none_iff.mp h)

/-- What taking one item changes: it moves from the front of what waits to the end of the log. -/
theorem takeNext_eq_some {next : QueuedSend} (h : s.takeNext = some (next, s')) :
    s.queue.dequeue = some (next, s'.queue) ∧ s'.out = s.out ++ [(next, s'.queue.waiting)] ∧
      s'.sent = s.sent ∧ s'.draining = s.draining ∧ s'.writing = s.writing := by
  obtain ⟨⟨item, queue⟩, htake, heq⟩ := Option.map_eq_some_iff.mp h
  cases heq
  exact ⟨htake, rfl, rfl, rfl, rfl⟩

theorem Accounted.takeNext {next : QueuedSend} (h : s.Accounted levels)
    (htake : s.takeNext = some (next, s')) : s'.Accounted levels := by
  obtain ⟨hdequeue, hout, hsent, -, -⟩ := takeNext_eq_some htake
  obtain ⟨hwaiting, hqueueLevels⟩ := dequeue_waiting hdequeue
  have hall : s'.items ++ s'.queue.waiting = s.items ++ s.queue.waiting := by
    rw [items, items, hout, hwaiting, List.map_append, List.append_assoc]
    rfl
  refine ⟨hqueueLevels.trans h.queue_levels, h.ordered.dequeue hdequeue, ?_, ?_, ?_, ?_⟩
  · rw [hsent]
    exact h.numbered
  · rw [hall, hsent]
    exact h.kept
  · intro taken htaken y hy
    rw [hout] at htaken
    rcases List.mem_append.mp htaken with htaken | htaken
    · exact h.urgent taken htaken y hy
    · obtain rfl := List.mem_singleton.mp htaken
      have hordered := h.ordered.waiting_pairwise
      rw [hwaiting] at hordered
      rcases List.rel_of_pairwise_cons hordered hy with hlt | ⟨heq, -⟩
      · exact hlt.le
      · exact heq.le
  · rw [hall]
    exact h.arrived

theorem Accounted.frame (h : s.Accounted levels) (hqueue : s'.queue = s.queue)
    (hsent : s'.sent = s.sent) (hout : s'.out = s.out) : s'.Accounted levels := by
  obtain ⟨queue, draining, writing, sent, out⟩ := s'
  cases hqueue
  cases hsent
  cases hout
  exact ⟨h.queue_levels, h.ordered, h.numbered, h.kept, h.urgent, h.arrived⟩

theorem Accounted.drain (h : s.Accounted levels) (alive : Bool) (fuel : ℕ) :
    (drain alive fuel s).Accounted levels := by
  induction fuel generalizing s with
  | zero => exact h
  | succ fuel ih =>
    rw [SendQueueState.drain]
    cases htake : s.takeNext with
    | none => exact h.frame rfl rfl rfl
    | some taken =>
      obtain ⟨next, s'⟩ := taken
      have hs' := h.takeNext htake
      cases alive with
      | true => exact hs'.frame rfl rfl rfl
      | false => exact ih hs'

theorem Accounted.rejectAll (h : s.Accounted levels) (fuel : ℕ) :
    (rejectAll fuel s).Accounted levels := by
  induction fuel generalizing s with
  | zero => exact h
  | succ fuel ih =>
    rw [SendQueueState.rejectAll]
    cases htake : s.takeNext with
    | none => exact h
    | some taken => exact ih (h.takeNext htake)

/-- The new item has the largest number, and stands last in its bucket. -/
theorem Accounted.enqueue {priority : JsNumber} {queue : PriorityQueue QueuedSend}
    (h : s.Accounted levels)
    (hput : s.queue.enqueue priority ⟨s.sent.length, priority⟩ = some queue) :
    ({ s with queue, sent := s.sent ++ [⟨s.sent.length, priority⟩] } :
      SendQueueState).Accounted levels := by
  obtain ⟨hwaiting, hqueueLevels⟩ := enqueue_waiting hput
  have hordered : queue.Ordered (urgency levels) fun x y => x.number < y.number := by
    refine h.ordered.enqueue ?_ (fun x hx => ?_) hput
    · rw [h.queue_levels]
      rfl
    · exact h.number_lt (List.mem_append_right _ hx)
  refine ⟨hqueueLevels.trans h.queue_levels, hordered, ?_, ?_, h.urgent, ?_⟩
  · rw [List.map_append, h.numbered, List.length_append, List.length_singleton, List.range_succ]
    rfl
  · have hall := (hwaiting.append_left s.items).trans
      (.of_eq (List.append_assoc ..).symm)
    exact hall.trans (h.kept.append_right _)
  · obtain ⟨hitems, -, hcross⟩ := List.pairwise_append.mp h.arrived
    refine List.pairwise_append.mpr ⟨hitems, ?_, fun x hx y hy => ?_⟩
    · refine hordered.waiting_pairwise.imp fun hxy hsame => ?_
      rcases hxy with hlt | ⟨-, hnumber⟩
      · exact absurd hsame hlt.ne
      · exact hnumber
    · rcases List.mem_append.mp (hwaiting.mem_iff.mp hy) with hy | hy
      · exact hcross x hx y hy
      · obtain rfl := List.mem_singleton.mp hy
        exact fun _ => h.number_lt (List.mem_append_left _ hx)

theorem drained_drain (hdraining : s.draining = true) (hwriting : s.writing = none) (alive : Bool)
    {fuel : ℕ} (hfuel : s.queue.waiting.length < fuel) : (drain alive fuel s).Drained := by
  induction fuel generalizing s with
  | zero => cases hfuel
  | succ fuel ih =>
    rw [drain]
    cases htake : s.takeNext with
    | none =>
      change Drained { s with draining := false }
      exact ⟨(congrArg Option.isSome hwriting).symm, fun _ => (takeNext_eq_none htake :)⟩
    | some taken =>
      obtain ⟨next, s'⟩ := taken
      obtain ⟨hdequeue, -, -, hdraining', hwriting'⟩ := takeNext_eq_some htake
      cases alive with
      | true =>
        change Drained { s' with writing := some next }
        exact ⟨hdraining'.trans hdraining, fun h => absurd h (Option.some_ne_none next)⟩
      | false =>
        refine ih (hdraining'.trans hdraining) (hwriting'.trans hwriting) ?_
        have hlength := congrArg List.length (dequeue_waiting hdequeue).1
        rw [List.length_cons] at hlength
        omega

theorem rejectAll_frame (fuel : ℕ) :
    (rejectAll fuel s).draining = s.draining ∧ (rejectAll fuel s).writing = s.writing ∧
      (s.queue.waiting = [] → (rejectAll fuel s).queue.waiting = []) := by
  induction fuel generalizing s with
  | zero => exact ⟨rfl, rfl, id⟩
  | succ fuel ih =>
    rw [rejectAll]
    cases htake : s.takeNext with
    | none => exact ⟨rfl, rfl, id⟩
    | some taken =>
      obtain ⟨next, s'⟩ := taken
      obtain ⟨hdequeue, -, -, hdraining, hwriting⟩ := takeNext_eq_some htake
      obtain ⟨ihdraining, ihwriting, -⟩ := ih (s := s')
      refine ⟨ihdraining.trans hdraining, ihwriting.trans hwriting, fun hempty => ?_⟩
      rw [(dequeue_waiting hdequeue).1] at hempty
      cases hempty

theorem Drained.queue_eq_nil (h : s.Drained) (hidle : s.draining = false) :
    s.queue.waiting = [] := by
  rw [h.draining_eq] at hidle
  exact h.empty (Option.not_isSome_iff_eq_none.mp (Bool.eq_false_iff.mp hidle))

/-- A send changes nothing, or the queue takes it and the loop is started. -/
theorem send_cases (maxQueued : ℤ) (s : SendQueueState) (priority : JsNumber) (alive : Bool) :
    s.send maxQueued priority alive = s ∨
      ∃ queue, s.queue.enqueue priority ⟨s.sent.length, priority⟩ = some queue ∧
        s.send maxQueued priority alive =
          drainQueue alive { s with queue, sent := s.sent ++ [⟨s.sent.length, priority⟩] } := by
  rw [send]
  split_ifs
  · exact Or.inl rfl
  · exact Or.inl rfl
  · cases hput : s.queue.enqueue priority ⟨s.sent.length, priority⟩ with
    | none => exact Or.inl (by simp only [hput])
    | some queue => exact Or.inr ⟨queue, rfl, by simp only [hput]⟩

theorem Accounted.send (h : s.Accounted levels) (priority : JsNumber) (alive : Bool) :
    (s.send maxQueued priority alive).Accounted levels := by
  rcases send_cases maxQueued s priority alive with heq | ⟨queue, hput, heq⟩
  · rwa [heq]
  · have hadded := h.enqueue hput
    rw [heq, drainQueue]
    split_ifs
    · exact hadded
    · apply Accounted.drain
      exact hadded.frame rfl rfl rfl

theorem Drained.send (h : s.Drained) (priority : JsNumber) (alive : Bool) :
    (s.send maxQueued priority alive).Drained := by
  rcases send_cases maxQueued s priority alive with heq | ⟨queue, -, heq⟩
  · rwa [heq]
  · rw [heq, drainQueue]
    split_ifs with hdraining
    · change s.draining = true at hdraining
      refine ⟨h.draining_eq, fun hnone => ?_⟩
      change s.writing = none at hnone
      rw [h.draining_eq, hnone] at hdraining
      cases hdraining
    · have hidle : s.draining = false := Bool.eq_false_iff.mpr hdraining
      rw [h.draining_eq] at hidle
      have hnone := Option.not_isSome_iff_eq_none.mp (Bool.eq_false_iff.mp hidle)
      apply drained_drain
      · rfl
      · exact hnone
      · exact Nat.lt_succ_self _

theorem drain_sent (alive : Bool) (fuel : ℕ) : (drain alive fuel s).sent = s.sent := by
  induction fuel generalizing s with
  | zero => rfl
  | succ fuel ih =>
    rw [drain]
    cases htake : s.takeNext with
    | none => rfl
    | some taken =>
      obtain ⟨next, s'⟩ := taken
      have hsent := (takeNext_eq_some htake).2.2.1
      cases alive with
      | true => exact hsent
      | false => exact ih.trans hsent

theorem send_sent {priority : JsNumber} {queue : PriorityQueue QueuedSend}
    (hroom : s.queue.size < maxQueued)
    (hput : s.queue.enqueue priority ⟨s.sent.length, priority⟩ = some queue) :
    (s.send maxQueued priority true).sent = s.sent ++ [⟨s.sent.length, priority⟩] := by
  rw [send, if_neg (by decide), if_neg (not_le.mpr hroom)]
  simp only [hput, drainQueue]
  split_ifs
  · rfl
  · exact drain_sent true _

/-- Both invariants hold along every run. -/
theorem accounted_and_drained (h : (sendQueue levels maxQueued).Reachable s) :
    s.Accounted levels ∧ s.Drained := by
  refine h.invariant (I := fun s => s.Accounted levels ∧ s.Drained) (fun s hs => ?_)
    fun s e s' hI _ hstep => ?_
  · obtain rfl := hs
    refine ⟨accounted_start levels, rfl, fun _ => ?_⟩
    rw [start, PriorityQueue.new, waiting, List.flatten_replicate_nil]
  · obtain ⟨hacc, hdr⟩ := hI
    cases e with
    | send priority alive =>
      obtain rfl := Option.some.inj hstep
      exact ⟨hacc.send priority alive, hdr.send priority alive⟩
    | wrote alive =>
      obtain ⟨next, hwriting, rfl⟩ := Option.map_eq_some_iff.mp hstep
      have hdraining : s.draining = true := by rw [hdr.draining_eq, hwriting, Option.isSome_some]
      constructor
      · apply Accounted.drain
        exact hacc.frame rfl rfl rfl
      · apply drained_drain
        · exact hdraining
        · rfl
        · exact Nat.lt_succ_self _
    | stop =>
      obtain rfl := Option.some.inj hstep
      obtain ⟨hdraining, hwriting, hempty⟩ := rejectAll_frame (s := s) s.queue.waiting.length
      refine ⟨hacc.rejectAll _, ?_, fun hnone => hempty (hdr.empty (hwriting ▸ hnone))⟩
      rw [hdraining, hwriting]
      exact hdr.draining_eq

end SendQueueState

open PriorityQueue SendQueueState in
/-- In every reachable state the accepted sends are those that came out and those that wait, each
once; nothing waits once the loop has stopped; whatever came out was at least as urgent as all
that waited, and older than what waited of its own level; the count is exact, and no priority is
lost. -/
theorem outgoing_by_priority (levels : ℕ) (maxQueued : ℤ) {s : SendQueueState}
    (h : (sendQueue levels maxQueued).Reachable s) :
    (s.items ++ s.queue.waiting).Perm s.sent ∧
      s.sent.map QueuedSend.number = List.range s.sent.length ∧
      (s.draining = false → s.queue.waiting = []) ∧
      (∀ x rest, (x, rest) ∈ s.out → ∀ y ∈ rest, level levels x.priority ≤ level levels y.priority) ∧
      ((s.items ++ s.queue.waiting).Pairwise fun x y =>
        level levels x.priority = level levels y.priority → x.number < y.number) ∧
      s.queue.size = s.queue.waiting.length ∧
      (0 < levels → s.queue.size < maxQueued → ∀ priority : JsNumber,
        (s.send maxQueued priority true).sent = s.sent ++ [⟨s.sent.length, priority⟩]) := by
  obtain ⟨hacc, hdr⟩ := accounted_and_drained h
  refine ⟨hacc.kept, hacc.numbered, hdr.queue_eq_nil, fun x rest hx => hacc.urgent _ hx,
    hacc.arrived, hacc.ordered.counted, fun hlevels hroom priority => ?_⟩
  obtain ⟨queue, hput⟩ :=
    hacc.ordered.exists_enqueue (hacc.queue_levels ▸ hlevels) priority ⟨s.sent.length, priority⟩
  exact send_sent hroom hput

open SendQueueState in
/-- A bulk packet is being written, one of priority 2.5 waits, and an emergency passes it. -/
theorem outgoing_by_priority_emergency :
    ∃ s, (sendQueue 6 1000).run (start 6)
        [.send (.finite 5) true, .send (.finite (5 / 2)) true, .send (.finite 0) true, .wrote true] =
          some s ∧
      s.items.map QueuedSend.number = [0, 2] ∧ s.queue.waiting = [⟨1, .finite (5 / 2)⟩] ∧
      (s.items ++ s.queue.waiting).Perm s.sent ∧ s.queue.size = s.queue.waiting.length := by
  have hrun : (sendQueue 6 1000).run (start 6)
      [.send (.finite 5) true, .send (.finite (5 / 2)) true, .send (.finite 0) true, .wrote true] =
        some ⟨⟨6, [[], [], [], [], [], [⟨1, .finite (5 / 2)⟩]], 1⟩, true, some ⟨2, .finite 0⟩,
          [⟨0, .finite 5⟩, ⟨1, .finite (5 / 2)⟩, ⟨2, .finite 0⟩],
          [(⟨0, .finite 5⟩, []), (⟨2, .finite 0⟩, [⟨1, .finite (5 / 2)⟩])]⟩ := by
    decide +kernel
  obtain ⟨hkept, -, -, -, -, hsize, -⟩ :=
    outgoing_by_priority 6 1000 (System.reachable_of_run rfl hrun)
  exact ⟨_, hrun, rfl, rfl, hkept, hsize⟩

end Arald
