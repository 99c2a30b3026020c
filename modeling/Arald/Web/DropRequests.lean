import Arald.Ingest.Box
import Arald.Web.Http

/-!
# Publishing drops over HTTP

`POST /api/drops` of the web UI. A client may send a key with a drop, and send
both again when no answer came back: as long as the drop of the key lives, the
answer is that drop. The node remembers a bounded number of keys, the oldest
give way first, and a key whose drop has expired may publish again.

The body of a request arrives in its own time, and everything else may happen
before it does. From there on the request is handled at one go.
-/

namespace Arald

open Foundations

/-! ### The body of a request -/

def maxIdempotencyKeyLength : ℕ := 100

structure DropSubmission where
  request : Box.DropRequest
  idempotencyKey : Option String

/-- The shallow checks, in their order. -/
def readDropSubmission (body : JsValue) : Except String DropSubmission := do
  let some text := nonEmpty? (body.prop "text") | throw "'text' must be a non-empty string"
  let some lat := (body.prop "lat").number? | throw "'lat' and 'lon' must be numbers"
  let some lon := (body.prop "lon").number? | throw "'lat' and 'lon' must be numbers"
  let some label := optional? JsValue.string? (body.prop "label") | throw "'label' must be a string"
  let some kind := ((body.prop "kind").orElse (.str "info")).string? >>= DropKind.ofString?
    | throw "'kind' must be one of 'info', 'hazard', 'emergency'"
  let some expiresInMs := optional? JsValue.number? (body.prop "expiresInMs")
    | throw "'expiresInMs' must be a number"
  let some createdAt := optional? JsValue.number? (body.prop "createdAt")
    | throw "'createdAt' must be a number"
  let some idempotencyKey := optional? (boundedText? maxIdempotencyKeyLength) (body.prop "idempotencyKey")
    | throw "'idempotencyKey' must be a string of 1-100 characters"
  return { request := { text, lat, lon, label, kind, expiresInMs, createdAt }, idempotencyKey }

def readDropBody (p : Platform) (raw : Buffer) : Except String DropSubmission :=
  match if raw.isEmpty then some (.obj []) else p.parseJson raw with
  | none => .error "malformed JSON body"
  | some body => readDropSubmission body

/-- What a drop says. -/
structure DropContent where
  text : String
  lat : JsNumber
  lon : JsNumber
  label : Option String
  kind : DropKind
  deriving DecidableEq

def Box.DropRequest.content (r : Box.DropRequest) : DropContent :=
  ⟨r.text, r.lat, r.lon, r.label, r.kind⟩

/-- `JSON.stringify([text, lat, lon, label ?? null, kind])`, as the array that it
writes: a number that is not finite becomes `null`. -/
structure DropFingerprint where
  text : String
  lat : Option ℚ
  lon : Option ℚ
  label : Option String
  kind : DropKind
  deriving DecidableEq

def DropContent.fingerprint (c : DropContent) : DropFingerprint :=
  ⟨c.text, (JsValue.num c.lat).finite?, (JsValue.num c.lon).finite?, c.label, c.kind⟩

/-- A position of two finite numbers. -/
def DropFingerprint.isLocated (f : DropFingerprint) : Bool := f.lat.isSome && f.lon.isSome

theorem finite?_inj {a b : JsNumber} (h : (JsValue.num a).finite? = (JsValue.num b).finite?)
    (hfinite : (JsValue.num a).finite?.isSome = true) : a = b := by
  obtain ⟨q, hq⟩ := Option.isSome_iff_exists.mp hfinite
  have hb := h.symm.trans hq
  cases a <;> cases hq
  cases b <;> cases hb
  rfl

/-- The fingerprint of a drop with a position determines what it says. -/
theorem DropContent.fingerprint_inj {c d : DropContent} (h : c.fingerprint = d.fingerprint)
    (hlocated : c.fingerprint.isLocated = true) : c = d := by
  obtain ⟨hlat, hlon⟩ := Bool.and_eq_true_iff.mp hlocated
  have hlat' : c.lat = d.lat := finite?_inj (congrArg DropFingerprint.lat h) hlat
  have hlon' : c.lon = d.lon := finite?_inj (congrArg DropFingerprint.lon h) hlon
  cases c
  cases d
  simp only [fingerprint, DropFingerprint.mk.injEq] at h hlat' hlon'
  obtain ⟨rfl, -, -, rfl, rfl⟩ := h
  rw [hlat', hlon']

/-! ### The endpoint -/

/-- `drop.expiresAt !== undefined && drop.expiresAt <= now`. -/
def Drop.expired (d : Drop) (now : ℤ) : Bool :=
  match d.expiresAt with
  | some t => t ≤ now
  | none => false

theorem Drop.expired_mono {d : Drop} {now later : ℤ} (h : d.expired now = true) (hle : now ≤ later) :
    d.expired later = true := by
  unfold expired at h ⊢
  cases hexpires : d.expiresAt with
  | none => rw [hexpires] at h; cases h
  | some t =>
    rw [hexpires] at h
    have ht : t ≤ now := of_decide_eq_true h
    exact decide_eq_true (ht.trans (by exact_mod_cast hle))

structure RememberedDrop where
  drop : Drop
  fingerprint : DropFingerprint

inductive DropAnswer where
  | refused (status : ℕ) (error : String)
  | published (drop : Drop) (duplicate : Bool)

/-- An answered request; there is no submission when its body was not well-formed. -/
structure DropReceipt where
  submission : Option DropSubmission
  answer : DropAnswer
  time : ℤ

namespace DropReceipt

def key (a : DropReceipt) : Option String := a.submission.bind DropSubmission.idempotencyKey

def content? (a : DropReceipt) : Option DropContent := a.submission.map fun x => x.request.content

/-- The drop that the request published. -/
def publication? (a : DropReceipt) : Option Drop :=
  match a.answer with
  | .published drop false => some drop
  | _ => none

/-- The request published a drop under the key. -/
def publishes (key : String) (a : DropReceipt) : Bool :=
  a.key = some key && a.publication?.isSome

end DropReceipt

def BodyFailure.answer : BodyFailure → DropAnswer
  | tooLarge => .refused 413 "request body too large"
  | timedOut => .refused 408 "timed out waiting for the request body"
  | unreadable => .refused 400 "failed to read request body"

def maxRememberedDrops : ℕ := 512

structure DropEndpoint where
  box : Box
  dropsByIdempotencyKey : BoundedFifoMap String RememberedDrop
  clock : ℤ
  /-- The number of requests past the password check whose bodies are on their way. -/
  reading : ℕ
  /-- Every answer, the latest first. -/
  answers : List DropReceipt

inductive DropEndpointEvent where
  | opened
  | bodyRead (raw : Buffer) (now : ℤ) (t : Readings)
  | bodyFailed (failure : BodyFailure) (now : ℤ)
  /-- The connection is gone. -/
  | aborted
  | elapsed (now : ℤ)
  /-- Anything else that happens to the node. -/
  | box (e : BoxEvent)

namespace DropEndpoint

/-- The drop that still lives for the key; an expired one is forgotten. -/
def recallDrop (m : BoundedFifoMap String RememberedDrop) (key : String) (now : ℤ) :
    BoundedFifoMap String RememberedDrop × Option RememberedDrop :=
  match m.get? key with
  | none => (m, none)
  | some existing => if existing.drop.expired now then (m.delete key, none) else (m, some existing)

/-- `message.includes("too many high-priority drops")`. -/
def isBudgetError (message : String) : Bool :=
  message.toList.tails.any fun rest => "too many high-priority drops".toList.isPrefixOf rest

def publish (p : Platform) (s : DropEndpoint) (x : DropSubmission) (t : Readings) :
    DropEndpoint × DropAnswer :=
  match s.box.publishDrop p x.request t with
  | (box, .error message) =>
    ({ s with box }, .refused (if isBudgetError message then 429 else 400) message)
  | (box, .ok drop) =>
    match x.idempotencyKey with
    | none => ({ s with box }, .published drop false)
    | some key =>
      ({ s with
          box := box
          dropsByIdempotencyKey :=
            s.dropsByIdempotencyKey.set none key ⟨drop, x.request.content.fingerprint⟩ },
        .published drop false)

def handleCreateDrop (p : Platform) (s : DropEndpoint) (x : DropSubmission) (now : ℤ) (t : Readings) :
    DropEndpoint × DropAnswer :=
  match x.idempotencyKey with
  | none => s.publish p x t
  | some key =>
    match recallDrop s.dropsByIdempotencyKey key now with
    | (m, none) => ({ s with dropsByIdempotencyKey := m }).publish p x t
    | (_, some existing) =>
      if existing.fingerprint ≠ x.request.content.fingerprint then
        (s, .refused 409 "'idempotencyKey' already used for a different drop")
      else (s, .published existing.drop true)

/-- The answer leaves. -/
def answered (s : DropEndpoint) (a : DropReceipt) : DropEndpoint :=
  { s with answers := a :: s.answers, reading := s.reading - 1 }

/-- The clock does not step back. -/
def step (p : Platform) (s : DropEndpoint) : DropEndpointEvent → Option DropEndpoint
  | .opened => some { s with reading := s.reading + 1 }
  | .bodyRead raw now t =>
    if s.reading = 0 ∨ now < s.clock then none
    else
      let s := { s with clock := now }
      match readDropBody p raw with
      | .error message => some (s.answered ⟨none, .refused 400 message, now⟩)
      | .ok x =>
        let r := s.handleCreateDrop p x now t
        some (r.1.answered ⟨some x, r.2, now⟩)
  | .bodyFailed failure now =>
    if s.reading = 0 ∨ now < s.clock then none
    else some ({ s with clock := now }.answered ⟨none, failure.answer, now⟩)
  | .aborted => if s.reading = 0 then none else some { s with reading := s.reading - 1 }
  | .elapsed now => if now < s.clock then none else some { s with clock := now }
  | .box e => some { s with box := s.box.step p e }

/-- A server that has just started, on a node in any state. -/
def system (p : Platform) : System DropEndpoint DropEndpointEvent where
  Init s := ∃ box clock, s = ⟨box, .empty ((maxRememberedDrops : ℤ) : WithTop ℤ), clock, 0, []⟩
  step := step p

/-! ### The drops of a key -/

/-- The requests that published a drop under a key. -/
def keyedDrops (answers : List DropReceipt) : List DropReceipt :=
  answers.filter fun a => a.key.isSome && a.publication?.isSome

/-- The last request that published a drop under the key. -/
def lastDrop? (answers : List DropReceipt) (key : String) : Option DropReceipt :=
  (keyedDrops answers).find? fun a => a.key = some key

/-- How many drops were published under other keys since then. -/
def othersSince (answers : List DropReceipt) (key : String) : ℕ :=
  ((keyedDrops answers).takeWhile fun a => a.key ≠ some key).length

/-- Fewer than `maxRememberedDrops` drops were published under other keys since the
key of the request was used for one. -/
def remembers (p : Platform) (s : DropEndpoint) : DropEndpointEvent → Bool
  | .bodyRead raw _ _ =>
    match readDropBody p raw with
    | .error _ => true
    | .ok x =>
      match x.idempotencyKey with
      | none => true
      | some key => (lastDrop? s.answers key).isNone || othersSince s.answers key < maxRememberedDrops
  | _ => true

section
variable {answers : List DropReceipt} {a : DropReceipt} {key k : String} {drop : Drop}

theorem keyedDrops_cons (hkey : a.key = some key) (hdrop : a.publication? = some drop) :
    keyedDrops (a :: answers) = a :: keyedDrops answers := by
  rw [keyedDrops, List.filter_cons, if_pos (by rw [hkey, hdrop]; rfl)]
  rfl

theorem keyedDrops_cons_of_none (h : a.key = none ∨ a.publication? = none) :
    keyedDrops (a :: answers) = keyedDrops answers := by
  rw [keyedDrops, List.filter_cons, if_neg]
  · rfl
  · rcases h with h | h <;> simp [h]

theorem lastDrop?_cons_self (hkey : a.key = some key) (hdrop : a.publication? = some drop) :
    lastDrop? (a :: answers) key = some a := by
  rw [lastDrop?, keyedDrops_cons hkey hdrop, List.find?_cons, decide_eq_true hkey]

theorem lastDrop?_cons_of_ne (hkey : a.key = some key) (hdrop : a.publication? = some drop)
    (hk : k ≠ key) : lastDrop? (a :: answers) k = lastDrop? answers k := by
  have hother : ¬a.key = some k := by rw [hkey]; simpa using hk.symm
  rw [lastDrop?, keyedDrops_cons hkey hdrop, List.find?_cons, decide_eq_false hother]
  rfl

theorem othersSince_cons_of_ne (hkey : a.key = some key) (hdrop : a.publication? = some drop)
    (hk : k ≠ key) : othersSince (a :: answers) k = othersSince answers k + 1 := by
  have hother : a.key ≠ some k := by rw [hkey]; simpa using hk.symm
  rw [othersSince, keyedDrops_cons hkey hdrop, List.takeWhile_cons, if_pos (decide_eq_true hother)]
  rfl

theorem othersSince_cons_self (hkey : a.key = some key) (hdrop : a.publication? = some drop) :
    othersSince (a :: answers) key = 0 := by
  rw [othersSince, keyedDrops_cons hkey hdrop, List.takeWhile_cons, if_neg (by simp [hkey])]
  rfl

theorem lastDrop?_cons_of_none (h : a.key = none ∨ a.publication? = none) (key : String) :
    lastDrop? (a :: answers) key = lastDrop? answers key := by
  rw [lastDrop?, keyedDrops_cons_of_none h]
  rfl

theorem othersSince_cons_of_none (h : a.key = none ∨ a.publication? = none) (key : String) :
    othersSince (a :: answers) key = othersSince answers key := by
  rw [othersSince, keyedDrops_cons_of_none h]
  rfl

theorem answer_of_publication? (h : a.publication? = some drop) : a.answer = .published drop false := by
  unfold DropReceipt.publication? at h
  split at h
  · next hanswer =>
    cases h
    exact hanswer
  · cases h

end

/-! ### What the map remembers -/

/-- While the drop of an earlier answer lives, a later answer for its key is that
drop again, for the same content. -/
def Agrees (later earlier : DropReceipt) : Prop :=
  ∀ key drop dup, earlier.key = some key → later.key = some key → earlier.answer = .published drop dup →
    drop.expired later.time = false → ∀ drop' dup', later.answer = .published drop' dup' →
      drop' = drop ∧ dup' = true ∧ later.content? = earlier.content?

structure Remembering (m : BoundedFifoMap String RememberedDrop) (answers : List DropReceipt)
    (clock : ℤ) : Prop where
  maxSize : m.maxSize = ((maxRememberedDrops : ℤ) : WithTop ℤ)
  times : ∀ a ∈ answers, a.time ≤ clock
  newer : ∀ key, m.AtMostNewer key (othersSince answers key)
  /-- A remembered drop is the last one of its key. -/
  recalled : ∀ key r, m.get? key = some r → ∃ a, lastDrop? answers key = some a ∧
    a.answer = .published r.drop false ∧ a.content?.map DropContent.fingerprint = some r.fingerprint
  /-- The last drop of a key is remembered until it expires or enough others follow. -/
  kept : ∀ key a drop, lastDrop? answers key = some a → a.answer = .published drop false →
    drop.expired clock = true ∨ maxRememberedDrops ≤ othersSince answers key ∨ (m.get? key).isSome = true
  /-- Only the last drop of a key may still live. -/
  current : ∀ a ∈ answers, ∀ key drop dup, a.key = some key → a.answer = .published drop dup →
    drop.expired clock = true ∨ ∃ b, lastDrop? answers key = some b ∧ b.answer = .published drop false ∧
      b.content? = a.content?
  located : ∀ a ∈ answers, ∀ drop dup, a.answer = .published drop dup →
    ∃ c, a.content? = some c ∧ c.fingerprint.isLocated = true
  agrees : answers.Pairwise Agrees

namespace Remembering

variable {m : BoundedFifoMap String RememberedDrop} {answers : List DropReceipt} {clock : ℤ}
  {a : DropReceipt} {key : String} {drop : Drop}

theorem tick (h : Remembering m answers clock) {now : ℤ} (hnow : clock ≤ now) :
    Remembering m answers now where
  maxSize := h.maxSize
  times a ha := (h.times a ha).trans hnow
  newer := h.newer
  recalled := h.recalled
  kept key a drop hlast hanswer := (h.kept key a drop hlast hanswer).imp_left fun hexpired =>
    Drop.expired_mono hexpired hnow
  current a ha key drop dup hkey hanswer := (h.current a ha key drop dup hkey hanswer).imp_left
    fun hexpired => Drop.expired_mono hexpired hnow
  located := h.located
  agrees := h.agrees

/-- An answer that publishes nothing under a key. -/
theorem reply (h : Remembering m answers clock) (htime : a.time = clock)
    (hnone : a.key = none ∨ a.publication? = none)
    (hcurrent : ∀ key drop dup, a.key = some key → a.answer = .published drop dup →
      dup = true ∧ ∃ b, lastDrop? answers key = some b ∧ b.answer = .published drop false ∧
        b.content? = a.content?)
    (hlocated : ∀ drop dup, a.answer = .published drop dup →
      ∃ c, a.content? = some c ∧ c.fingerprint.isLocated = true) : Remembering m (a :: answers) clock where
  maxSize := h.maxSize
  times := List.forall_mem_cons.mpr ⟨htime.le, h.times⟩
  newer key := by rw [othersSince_cons_of_none hnone]; exact h.newer key
  recalled key := by rw [lastDrop?_cons_of_none hnone]; exact h.recalled key
  kept key := by rw [lastDrop?_cons_of_none hnone, othersSince_cons_of_none hnone]; exact h.kept key
  current := by
    refine List.forall_mem_cons.mpr ⟨fun key drop dup hkey hanswer => .inr ?_, fun b hb key drop dup => ?_⟩
    · rw [lastDrop?_cons_of_none hnone]
      exact (hcurrent key drop dup hkey hanswer).2
    · rw [lastDrop?_cons_of_none hnone]
      exact h.current b hb key drop dup
  located := List.forall_mem_cons.mpr ⟨hlocated, h.located⟩
  agrees := by
    refine List.pairwise_cons.mpr ⟨fun e he key drop dup hkey hkey' hanswer hlive drop' dup' hanswer' => ?_,
      h.agrees⟩
    -- the drop that lives is the last one of the key, and so is the one of the answer
    obtain ⟨rfl, b, hlast, hb, hcontent⟩ := hcurrent key drop' dup' hkey' hanswer'
    rw [htime] at hlive
    rcases h.current e he key drop dup hkey hanswer with hexpired | ⟨b', hlast', hb', hcontent'⟩
    · rw [hlive] at hexpired
      cases hexpired
    · obtain rfl : b = b' := Option.some_inj.mp (hlast.symm.trans hlast')
      obtain ⟨rfl, -⟩ := DropAnswer.published.inj (hb.symm.trans hb')
      exact ⟨rfl, rfl, hcontent.symm.trans hcontent'⟩

/-- An answer without a drop. -/
theorem refuse (h : Remembering m answers clock) {status : ℕ} {message : String}
    {submission : Option DropSubmission} :
    Remembering m (⟨submission, .refused status message, clock⟩ :: answers) clock :=
  h.reply rfl (.inr rfl) (fun _ _ _ _ hanswer => by cases hanswer) fun _ _ hanswer => by cases hanswer

/-- The drop that lives for the key answers once more for what it says. -/
theorem repeated (h : Remembering m answers clock) {r : RememberedDrop} {x : DropSubmission}
    (hkey : x.idempotencyKey = some key) (hget : m.get? key = some r)
    (hsame : r.fingerprint = x.request.content.fingerprint) :
    Remembering m (⟨some x, .published r.drop true, clock⟩ :: answers) clock := by
  obtain ⟨b, hlast, hb, hprint⟩ := h.recalled key r hget
  have hmem : b ∈ answers := (List.mem_filter.mp (List.mem_of_find?_eq_some hlast)).1
  obtain ⟨c, hc, hlocated⟩ := h.located b hmem r.drop false hb
  have hprint' : c.fingerprint = x.request.content.fingerprint := by
    rw [hc] at hprint
    exact (Option.some_inj.mp hprint).trans hsame
  have hcontent : c = x.request.content := DropContent.fingerprint_inj hprint' hlocated
  refine h.reply rfl (.inr rfl) (fun key' drop dup hkey' hanswer => ?_) fun drop dup _ => ?_
  · obtain rfl : key = key' := Option.some_inj.mp (hkey.symm.trans hkey')
    obtain ⟨rfl, rfl⟩ := DropAnswer.published.inj hanswer
    exact ⟨rfl, b, hlast, hb, by rw [hc, hcontent]; rfl⟩
  · exact ⟨x.request.content, rfl, by rw [← hcontent]; exact hlocated⟩

/-- A drop that is published without a key. -/
theorem publish_unkeyed (h : Remembering m answers clock) {x : DropSubmission}
    (hkey : x.idempotencyKey = none) (hlocated : x.request.content.fingerprint.isLocated = true) :
    Remembering m (⟨some x, .published drop false, clock⟩ :: answers) clock :=
  h.reply rfl (.inl hkey) (fun _ _ _ hkey' _ => by cases hkey.symm.trans hkey')
    fun _ _ _ => ⟨_, rfl, hlocated⟩

/-- The expired drop of a key is forgotten. -/
theorem forget (h : Remembering m answers clock) {r : RememberedDrop} (hget : m.get? key = some r)
    (hexpired : r.drop.expired clock = true) : Remembering (m.delete key) answers clock where
  maxSize := h.maxSize
  times := h.times
  newer k := (h.newer k).delete key
  recalled k r' hr' := by
    rw [BoundedFifoMap.get?_delete] at hr'
    split_ifs at hr' with hk
    exact h.recalled k r' hr'
  kept k a drop hlast hanswer := by
    rw [BoundedFifoMap.get?_delete]
    split_ifs with hk
    · subst hk
      obtain ⟨b, hlast', hb, -⟩ := h.recalled k r hget
      obtain rfl : a = b := Option.some_inj.mp (hlast.symm.trans hlast')
      obtain ⟨rfl, -⟩ := DropAnswer.published.inj (hanswer.symm.trans hb)
      exact .inl hexpired
    · exact h.kept k a drop hlast hanswer
  current := h.current
  located := h.located
  agrees := h.agrees

/-- A drop is published under a key whose last drop, if any, has expired. -/
theorem publish (h : Remembering m answers clock) {x : DropSubmission} (hkey : x.idempotencyKey = some key)
    (hlocated : x.request.content.fingerprint.isLocated = true) (hget : m.get? key = none)
    (hlast : ∀ b drop', lastDrop? answers key = some b → b.answer = .published drop' false →
      drop'.expired clock = true) :
    Remembering (m.set none key ⟨drop, x.request.content.fingerprint⟩)
      (⟨some x, .published drop false, clock⟩ :: answers) clock := by
  have hnew : key ∉ m.keys := BoundedFifoMap.get?_eq_none.mp hget
  have hpos : 0 < m.maxSize := by rw [h.maxSize]; decide
  have hdead : ∀ e ∈ answers, ∀ drop' dup, e.key = some key → e.answer = .published drop' dup →
      drop'.expired clock = true := by
    intro e he drop' dup hkey' hanswer
    rcases h.current e he key drop' dup hkey' hanswer with hexpired | ⟨b, hlast', hb, -⟩
    · exact hexpired
    · exact hlast b drop' hlast' hb
  let a : DropReceipt := ⟨some x, .published drop false, clock⟩
  have hself : lastDrop? (a :: answers) key = some a := lastDrop?_cons_self hkey rfl
  have hnone : othersSince (a :: answers) key = 0 := othersSince_cons_self (a := a) hkey rfl
  have hother : ∀ k, k ≠ key → lastDrop? (a :: answers) k = lastDrop? answers k :=
    fun k hk => lastDrop?_cons_of_ne hkey rfl hk
  have hcount : ∀ k, k ≠ key → othersSince (a :: answers) k = othersSince answers k + 1 :=
    fun k hk => othersSince_cons_of_ne hkey rfl hk
  refine ⟨by rw [BoundedFifoMap.maxSize_set, h.maxSize], List.forall_mem_cons.mpr ⟨le_rfl, h.times⟩,
    fun k => ?_, fun k r hr => ?_, fun k b drop' hb hanswer => ?_, ?_,
    List.forall_mem_cons.mpr ⟨fun _ _ _ => ⟨_, rfl, hlocated⟩, h.located⟩, ?_⟩
  · rcases eq_or_ne k key with rfl | hk
    · rw [hnone]
      exact BoundedFifoMap.atMostNewer_set_self hpos hnew
    · rw [hcount k hk]
      exact (h.newer k).set hpos hnew hk
  · rcases eq_or_ne k key with rfl | hk
    · rw [BoundedFifoMap.get?_set_self none k _ hpos] at hr
      cases hr
      exact ⟨a, hself, rfl, rfl⟩
    · rcases BoundedFifoMap.get?_of_get?_set hr with ⟨hsame, -⟩ | hr
      · exact absurd hsame hk
      · rw [hother k hk]
        exact h.recalled k r hr
  · rcases eq_or_ne k key with rfl | hk
    · rw [BoundedFifoMap.get?_set_self none k _ hpos]
      exact .inr (.inr rfl)
    · rw [hother k hk] at hb
      rw [hcount k hk]
      rcases h.kept k b drop' hb hanswer with hexpired | hmany | hsome
      · exact .inl hexpired
      · exact .inr (.inl (hmany.trans (Nat.le_succ _)))
      · obtain ⟨r, hr⟩ := Option.isSome_iff_exists.mp hsome
        rcases Nat.lt_or_ge (othersSince answers k + 1) maxRememberedDrops with hfew | hmany
        · -- not enough entries are newer for it to be evicted
          have hroom : (((othersSince answers k + 1 : ℕ) : ℤ) : WithTop ℤ) < m.maxSize := by
            rw [h.maxSize]
            exact WithTop.coe_lt_coe.mpr (by exact_mod_cast hfew)
          rw [(h.newer k).get?_set hroom hnew hr]
          exact .inr (.inr rfl)
        · exact .inr (.inl hmany)
  · refine List.forall_mem_cons.mpr ⟨fun k drop' dup hkey' hanswer => .inr ?_, fun e he k drop' dup hk hanswer => ?_⟩
    · obtain rfl : key = k := Option.some_inj.mp (hkey.symm.trans hkey')
      obtain ⟨rfl, -⟩ := DropAnswer.published.inj hanswer
      exact ⟨a, hself, rfl, rfl⟩
    · rcases eq_or_ne k key with rfl | hne
      · exact .inl (hdead e he drop' dup hk hanswer)
      · rw [hother k hne]
        exact h.current e he k drop' dup hk hanswer
  · refine List.pairwise_cons.mpr ⟨fun e he k drop' dup hk hkey' hanswer hlive => ?_, h.agrees⟩
    obtain rfl : key = k := Option.some_inj.mp (hkey.symm.trans hkey')
    rw [hdead e he drop' dup hk hanswer] at hlive
    cases hlive

end Remembering

/-! ### Runs -/

section
variable {p : Platform} {s s' : DropEndpoint} {x : DropSubmission} {now : ℤ} {t : Readings} {key : String}

theorem finite?_of_finiteWithin? {low high : ℚ} {v : JsNumber} {q : ℚ}
    (h : Box.finiteWithin? low high v = some q) : (JsValue.num v).finite?.isSome = true := by
  obtain ⟨hq, -⟩ := Option.filter_eq_some_iff.mp h
  rw [hq]
  rfl

/-- A drop is only published at a position. -/
theorem isLocated_of_checkDropRequest {request : Box.DropRequest} {r : Box.CheckedDropRequest}
    (h : Box.checkDropRequest request = .ok r) : request.content.fingerprint.isLocated = true := by
  unfold Box.checkDropRequest at h
  by_cases htext : utf16Length request.text = 0 ∨ maxMessageTextLength < utf16Length request.text
  · rw [if_pos htext] at h
    cases h
  rw [if_neg htext] at h
  cases hlat : Box.finiteWithin? (-90) 90 request.lat with
  | none =>
    rw [hlat] at h
    cases h
  | some lat =>
    cases hlon : Box.finiteWithin? (-180) 180 request.lon with
    | none =>
      rw [hlat, hlon] at h
      cases h
    | some lon =>
      exact Bool.and_eq_true_iff.mpr ⟨finite?_of_finiteWithin? hlat, finite?_of_finiteWithin? hlon⟩

theorem isLocated_of_publishDrop {box box' : Box} {request : Box.DropRequest} {drop : Drop}
    (h : box.publishDrop p request t = (box', .ok drop)) :
    request.content.fingerprint.isLocated = true := by
  unfold Box.publishDrop at h
  split at h
  · cases h
  · next r hcheck => exact isLocated_of_checkDropRequest hcheck

/-- What publishing does to the map of keys, and what it answers. -/
theorem publish_cases (p : Platform) (s : DropEndpoint) (x : DropSubmission) (t : Readings) :
    (∃ box status message, s.publish p x t = ({ s with box }, .refused status message)) ∨
    ∃ box drop, x.request.content.fingerprint.isLocated = true ∧ s.publish p x t =
      ({ s with
          box := box
          dropsByIdempotencyKey := match x.idempotencyKey with
            | none => s.dropsByIdempotencyKey
            | some key => s.dropsByIdempotencyKey.set none key ⟨drop, x.request.content.fingerprint⟩ },
        .published drop false) := by
  unfold publish
  split
  · next box message _ => exact .inl ⟨box, _, message, rfl⟩
  · next box drop hpublish =>
    refine .inr ⟨box, drop, isLocated_of_publishDrop hpublish, ?_⟩
    cases x.idempotencyKey <;> rfl

/-- The map of keys remembers the answers. -/
abbrev Remembers (s : DropEndpoint) : Prop := Remembering s.dropsByIdempotencyKey s.answers s.clock

/-- A request that may publish: its key is not remembered, and the last drop of the
key, if there was one, has expired. -/
theorem remembering_publish (p : Platform) {s : DropEndpoint} (h : s.Remembers)
    (hfresh : ∀ key, x.idempotencyKey = some key → s.dropsByIdempotencyKey.get? key = none ∧
      ∀ b drop, lastDrop? s.answers key = some b → b.answer = .published drop false →
        drop.expired s.clock = true) :
    ((s.publish p x t).1.answered ⟨some x, (s.publish p x t).2, s.clock⟩).Remembers := by
  rcases publish_cases p s x t with ⟨box, status, message, hpublish⟩ | ⟨box, drop, hlocated, hpublish⟩
  · rw [hpublish]
    exact h.refuse
  · rw [hpublish]
    cases hkey : x.idempotencyKey with
    | none => exact h.publish_unkeyed hkey hlocated
    | some key => exact h.publish hkey hlocated (hfresh key hkey).1 (hfresh key hkey).2

/-- What is left of the memory of a key, once it is looked up. -/
theorem Remembering.recallDrop {m : BoundedFifoMap String RememberedDrop} {answers : List DropReceipt}
    {clock : ℤ} (h : Remembering m answers clock)
    (hfew : lastDrop? answers key = none ∨ othersSince answers key < maxRememberedDrops) :
    (∃ r, DropEndpoint.recallDrop m key clock = (m, some r) ∧ m.get? key = some r) ∨
    ∃ m', DropEndpoint.recallDrop m key clock = (m', none) ∧ Remembering m' answers clock ∧
      m'.get? key = none ∧ ∀ b drop, lastDrop? answers key = some b → b.answer = .published drop false →
        drop.expired clock = true := by
  unfold DropEndpoint.recallDrop
  cases hget : m.get? key with
  | none =>
    refine .inr ⟨m, rfl, h, hget, fun b drop hlast hanswer => ?_⟩
    rcases h.kept key b drop hlast hanswer with hexpired | hmany | hsome
    · exact hexpired
    · rcases hfew with hnone | hfew
      · rw [hnone] at hlast
        cases hlast
      · omega
    · rw [hget] at hsome
      cases hsome
  | some r =>
    dsimp only
    split_ifs with hexpired
    · refine .inr ⟨m.delete key, rfl, h.forget hget hexpired, ?_, fun b drop hlast hanswer => ?_⟩
      · rw [BoundedFifoMap.get?_delete, if_pos rfl]
      · obtain ⟨b', hlast', hb', -⟩ := h.recalled key r hget
        obtain rfl : b = b' := Option.some_inj.mp (hlast.symm.trans hlast')
        obtain ⟨rfl, -⟩ := DropAnswer.published.inj (hanswer.symm.trans hb')
        exact hexpired
    · exact .inl ⟨r, rfl, rfl⟩

theorem remembering_handleCreateDrop (p : Platform) {s : DropEndpoint} (h : s.Remembers)
    (hfew : ∀ key, x.idempotencyKey = some key →
      lastDrop? s.answers key = none ∨ othersSince s.answers key < maxRememberedDrops) :
    ((s.handleCreateDrop p x s.clock t).1.answered
      ⟨some x, (s.handleCreateDrop p x s.clock t).2, s.clock⟩).Remembers := by
  unfold handleCreateDrop
  cases hkey : x.idempotencyKey with
  | none => exact remembering_publish p h fun key hkey' => by cases hkey.symm.trans hkey'
  | some key =>
    dsimp only
    rcases h.recallDrop (hfew key hkey) with ⟨r, hrecall, hget⟩ | ⟨m, hrecall, hm, hget, hlast⟩
    · rw [hrecall]
      dsimp only
      split_ifs with hprint
      · exact h.refuse
      · exact h.repeated hkey hget (not_not.mp hprint)
    · rw [hrecall]
      have hs : Remembers { s with dropsByIdempotencyKey := m } := hm
      refine remembering_publish p hs fun key' hkey' => ?_
      obtain rfl : key = key' := Option.some_inj.mp (hkey.symm.trans hkey')
      exact ⟨hget, hlast⟩

theorem Remembers.step {e : DropEndpointEvent} (h : s.Remembers) (hfew : s.remembers p e = true)
    (hstep : DropEndpoint.step p s e = some s') : s'.Remembers := by
  cases e with
  | opened =>
    cases hstep
    exact h
  | bodyRead raw now t =>
    simp only [DropEndpoint.step] at hstep
    split_ifs at hstep with hguard
    have hnow : s.clock ≤ now := not_lt.mp fun hlt => hguard (.inr hlt)
    cases hbody : readDropBody p raw with
    | error message =>
      rw [hbody] at hstep
      cases hstep
      exact (h.tick hnow).refuse
    | ok x =>
      rw [hbody] at hstep
      cases hstep
      have hticked : Remembers { s with clock := now } := h.tick hnow
      have hkey : ∀ key, x.idempotencyKey = some key →
          lastDrop? s.answers key = none ∨ othersSince s.answers key < maxRememberedDrops := by
        intro key hkey
        simpa [remembers, hbody, hkey] using hfew
      exact remembering_handleCreateDrop p hticked hkey
  | bodyFailed failure now =>
    simp only [DropEndpoint.step] at hstep
    split_ifs at hstep with hguard
    have hnow : s.clock ≤ now := not_lt.mp fun hlt => hguard (.inr hlt)
    cases hstep
    cases failure <;> exact (h.tick hnow).refuse
  | aborted =>
    simp only [DropEndpoint.step] at hstep
    split_ifs at hstep
    cases hstep
    exact h
  | elapsed now =>
    simp only [DropEndpoint.step] at hstep
    split_ifs at hstep with hguard
    cases hstep
    exact h.tick (not_lt.mp hguard)
  | box e =>
    cases hstep
    exact h

/-- The drops published under a key that have not expired. -/
def liveDrops (s : DropEndpoint) (key : String) : List Drop :=
  s.answers.filterMap fun a =>
    if a.key = some key then a.publication?.filter fun drop => !drop.expired s.clock else none

theorem length_liveDrops_le (h : s.Remembers) (key : String) : (s.liveDrops key).length ≤ 1 := by
  have hlive : ∀ {a : DropReceipt} {drop : Drop}, (if a.key = some key then
      a.publication?.filter fun drop => !drop.expired s.clock else none) = some drop →
      a.key = some key ∧ a.answer = .published drop false ∧ drop.expired s.clock = false := by
    intro a drop ha
    split_ifs at ha with hkey
    obtain ⟨hdrop, hlive⟩ := Option.filter_eq_some_iff.mp ha
    exact ⟨hkey, answer_of_publication? hdrop, by simpa using hlive⟩
  have hnone : (s.liveDrops key).Pairwise fun _ _ => False := by
    refine List.pairwise_filterMap.mpr (h.agrees.imp_of_mem fun {later earlier} hlater _ hagrees => ?_)
    intro drop' hdrop' drop hdrop
    obtain ⟨hkey', hanswer', -⟩ := hlive hdrop'
    obtain ⟨hkey, hanswer, hdroplive⟩ := hlive hdrop
    have hthen : drop.expired later.time = false := by
      cases hexpired : drop.expired later.time with
      | false => rfl
      | true =>
        rw [Drop.expired_mono hexpired (h.times later hlater)] at hdroplive
        cases hdroplive
    obtain ⟨-, hdup, -⟩ := hagrees key drop false hkey hkey' hanswer hthen drop' false hanswer'
    cases hdup
  match hdrops : s.liveDrops key with
  | [] => exact Nat.zero_le _
  | [_] => exact le_rfl
  | d :: d' :: rest =>
    rw [hdrops] at hnone
    exact ((List.pairwise_cons.mp hnone).1 d' (List.mem_cons_self ..)).elim

end

/-! ### Two retries, and another drop under the same key -/

def keyedNotice (text : String) : JsValue :=
  .obj [("text", .str text), ("lat", .num (.finite 45)), ("lon", .num (.finite 9)),
    ("expiresInMs", .num (.finite 1000)), ("idempotencyKey", .str "k1")]

def noticePlatform : Platform := samplePlatform [keyedNotice "ice", keyedNotice "rocks"]

def noticeBytes (text : String) : Buffer := utf8 (renderJson (keyedNotice text))

end DropEndpoint
end Arald
