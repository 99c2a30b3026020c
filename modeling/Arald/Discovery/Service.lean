import Arald.Foundations.Runs
import Arald.Store.BoundedFifoMap
import Arald.Web.Http

/-!
# The discovery service

A directory outside the mesh in which a node registers the address at which it
can be reached. A registration is signed by the node, carries a timestamp, and
must be newer than the one that is held for the node. The directory is bounded,
and its oldest entry gives way to a new node.
-/

namespace Arald

open Foundations

/-! ### Registrations -/

structure DiscoveryRegistration where
  nodeId : String
  address : String
  label : Option String
  timestamp : ℚ
  signature : String
  deriving DecidableEq

def discoverySigningPayload (p : Platform) (r : DiscoveryRegistration) : Buffer :=
  p.stringify (.obj [
    ("nodeId", .str r.nodeId),
    ("address", .str r.address),
    ("label", .ofString r.label),
    ("timestamp", .num (.finite r.timestamp))])

def verifyDiscoveryRegistration (p : Platform) (r : DiscoveryRegistration) : Bool :=
  p.verifyWithNodeId r.nodeId (discoverySigningPayload p r) r.signature

structure StoredRegistration extends DiscoveryRegistration where
  verified : Bool
  verifiedAt : Option ℤ

/-- The `accepted` registrations are logged, the latest first. -/
structure DiscoveryService where
  adminPassword : Option String
  registrations : BoundedFifoMap String StoredRegistration
  accepted : List DiscoveryRegistration

namespace DiscoveryService

def maxLabelLength : ℕ := 100

def maxBodyBytes : ℕ := 8192

def defaultMaxRegistrations : WithTop ℤ := (10000 : ℤ)

def isAddressChar (c : Char) : Bool := c.isAlphanum || c ∈ ['.', '-', ':', '[', ']']

/-- `/^[a-zA-Z0-9.\-:[\]]+:\d{1,5}$/`. -/
def isAddress (s : String) : Bool :=
  let port := s.toList.reverse.takeWhile Char.isDigit
  match s.toList.reverse.dropWhile Char.isDigit with
  | ':' :: host => 1 ≤ port.length && port.length ≤ 5 && host ≠ [] && host.all isAddressChar
  | _ => false

def readRegistration (body : JsValue) : Except String DiscoveryRegistration := do
  let some nodeId := nonEmpty? (body.prop "nodeId") | throw "'nodeId' must be a non-empty string"
  let some address := (body.prop "address").string?.filter fun s => isAddress s
    | throw "'address' must be a 'host:port' string"
  let some label := optional? (boundedText? maxLabelLength) (body.prop "label")
    | throw "'label' must be a string of 1-100 characters"
  let some timestamp := (body.prop "timestamp").finite? | throw "'timestamp' must be a finite number"
  let some signature := nonEmpty? (body.prop "signature")
    | throw "'signature' must be a non-empty string"
  return { nodeId, address, label, timestamp, signature }

def answerBodyFailure (req : HttpRequest) : BodyFailure → HandlerEnd
  | .tooLarge => if req.connectionGone then .connectionGone else sendError 413 "request body too large"
  | _ => if req.connectionGone then .connectionGone else sendError 400 "failed to read request body"

/-- The registration in the body of a request, as far as it is well-formed. -/
def registrationOf (p : Platform) (req : HttpRequest) : Except HandlerEnd DiscoveryRegistration :=
  match readRequestBody maxBodyBytes req.body with
  | .error failure => .error (answerBodyFailure req failure)
  | .ok raw =>
    match p.parseJson raw with
    | none => .error (sendError 400 "malformed JSON body")
    | some body =>
      match readRegistration body with
      | .error message => .error (sendError 400 message)
      | .ok registration =>
        if verifyDiscoveryRegistration p registration then .ok registration
        else .error (sendError 401 "invalid signature")

/-- What is stored of a registration; a new label loses the verification. -/
def storedOf (r : DiscoveryRegistration) (existing : Option StoredRegistration) : StoredRegistration :=
  match existing with
  | some e =>
    if e.verified ∧ e.label = r.label then { r with verified := true, verifiedAt := e.verifiedAt }
    else { r with verified := false, verifiedAt := none }
  | none => { r with verified := false, verifiedAt := none }

/-- There is a newer registration, or one as new. -/
def isStale (existing : Option StoredRegistration) (r : DiscoveryRegistration) : Bool :=
  existing.any fun e => r.timestamp ≤ e.timestamp

def handleRegister (p : Platform) (s : DiscoveryService) (req : HttpRequest) :
    DiscoveryService × HandlerEnd :=
  match registrationOf p req with
  | .error answer => (s, answer)
  | .ok r =>
    let existing := s.registrations.get? r.nodeId
    if isStale existing r then
      (s, sendError 409 "timestamp is not newer than the last accepted registration for this nodeId")
    else
      ({ s with
          registrations := s.registrations.set none r.nodeId (storedOf r existing)
          accepted := r :: s.accepted },
        sendJson 200 (.obj [("ok", .bool true)]))

def handleLookup (s : DiscoveryService) (nodeId : String) : HandlerEnd :=
  match s.registrations.get? nodeId with
  | none => sendError 404 "unknown nodeId"
  | some entry => sendJson 200 (.obj [("address", .str entry.address)])

def handleDirectory (s : DiscoveryService) : HandlerEnd :=
  sendJson 200 (.arr (s.registrations.values.filterMap fun entry =>
    entry.label.map fun label =>
      .obj [("nodeId", .str entry.nodeId), ("label", .str label), ("verified", .bool entry.verified)]))

/-- The node id and the verdict in the body of a verification. -/
def readVerification (body : JsValue) : Except String (String × Bool) := do
  let some nodeId := nonEmpty? (body.prop "nodeId") | throw "'nodeId' must be a non-empty string"
  match body.prop "verified" with
  | .bool verified => return (nodeId, verified)
  | _ => throw "'verified' must be a boolean"

def handleAdminVerify (p : Platform) (s : DiscoveryService) (req : HttpRequest) (now : ℤ) :
    DiscoveryService × HandlerEnd :=
  match s.adminPassword.filter fun password => password ≠ "" with
  | none => (s, sendError 404 "not found")
  | some password =>
    if req.authorization ≠ some ("Bearer " ++ password) then
      (s, sendError 401 "missing or invalid admin password")
    else
      match readRequestBody maxBodyBytes req.body with
      | .error failure => (s, answerBodyFailure req failure)
      | .ok raw =>
        match p.parseJson raw with
        | none => (s, sendError 400 "malformed JSON body")
        | some body =>
          match readVerification body with
          | .error message => (s, sendError 400 message)
          | .ok (nodeId, verified) =>
            match s.registrations.get? nodeId with
            | none => (s, sendError 404 "unknown nodeId")
            | some entry =>
              ({ s with
                  registrations := s.registrations.set none nodeId
                    { entry with verified, verifiedAt := if verified then some now else none } },
                sendJson 200 (.obj [("ok", .bool true), ("nodeId", .str entry.nodeId),
                  ("verified", .bool verified)]))

/-- The part of a path after a prefix. -/
def pathAfter? (pathPrefix : String) (pathname : String) : Option String :=
  if pathPrefix.toList.isPrefixOf pathname.toList then
    some (String.ofList (pathname.toList.drop pathPrefix.toList.length))
  else none

/-- The encoded node id that a request looks up. -/
def lookedUp? (req : HttpRequest) (url : RequestUrl) : Option String :=
  if req.method = "GET" then pathAfter? "/lookup/" url.pathname else none

def route (p : HttpPlatform) (s : DiscoveryService) (req : HttpRequest) (now : ℤ) :
    DiscoveryService × HandlerEnd :=
  match p.newUrl (req.url.getD "/") with
  | none => (s, .threw)
  | some url =>
    if req.method = "POST" ∧ url.pathname = "/register" then s.handleRegister p.toPlatform req
    else
      match lookedUp? req url with
      | some encoded =>
        match decodeURIComponent encoded with
        | none => (s, .threw)
        | some nodeId => (s, s.handleLookup nodeId)
      | none =>
        if req.method = "GET" ∧ url.pathname = "/directory" then (s, s.handleDirectory)
        else if req.method = "POST" ∧ url.pathname = "/admin/verify" then
          s.handleAdminVerify p.toPlatform req now
        else (s, sendError 404 "not found")

/-- A request at a time; an exception ends the process. -/
def step (p : HttpPlatform) (s : DiscoveryService) (e : HttpRequest × ℤ) : Option DiscoveryService :=
  match s.route p e.1 e.2 with
  | (_, .threw) => none
  | (s, _) => some s

/-- A service that has just started. -/
def system (p : HttpPlatform) : System DiscoveryService (HttpRequest × ℤ) where
  Init s := ∃ adminPassword maxRegistrations, s = ⟨adminPassword, .empty maxRegistrations, []⟩
  step := step p

/-- The accepted registrations of a node, the latest first. -/
def acceptedOf (s : DiscoveryService) (nodeId : String) : List DiscoveryRegistration :=
  s.accepted.filter fun r => r.nodeId = nodeId

/-- No registration of another node takes the place of the node's entry: while it
is the oldest entry, and the directory is full, no new node registers. -/
def keeps (p : HttpPlatform) (nodeId : String) (s : DiscoveryService) (e : HttpRequest × ℤ) : Bool :=
  match registrationOf p.toPlatform e.1 with
  | .error _ => true
  | .ok r => !s.registrations.refuses && s.registrations.victim? none r.nodeId ≠ some nodeId

/-! ### No rollback -/

section
variable {p : HttpPlatform} {s s' : DiscoveryService} {req : HttpRequest} {now : ℤ} {nodeId : String}
  {r : DiscoveryRegistration}

/-- What a request can change: nothing, a registration that is accepted, or the
verification of an entry. -/
inductive RouteStep (p : HttpPlatform) (s : DiscoveryService) (req : HttpRequest) : DiscoveryService → Prop
  | same : RouteStep p s req s
  | registered (r : DiscoveryRegistration) (hr : registrationOf p.toPlatform req = .ok r)
      (hnew : isStale (s.registrations.get? r.nodeId) r = false) : RouteStep p s req
        { s with
          registrations := s.registrations.set none r.nodeId (storedOf r (s.registrations.get? r.nodeId))
          accepted := r :: s.accepted }
  | verified (key : String) (entry : StoredRegistration) (verified : Bool) (verifiedAt : Option ℤ)
      (hentry : s.registrations.get? key = some entry) : RouteStep p s req
        { s with registrations := s.registrations.set none key { entry with verified, verifiedAt } }

theorem handleRegister_step (p : HttpPlatform) (s : DiscoveryService) (req : HttpRequest) :
    RouteStep p s req (s.handleRegister p.toPlatform req).1 := by
  unfold handleRegister
  split
  · exact .same
  · next r hr =>
    dsimp only
    split_ifs with hstale
    · exact .same
    · exact .registered r hr (Bool.eq_false_iff.mpr hstale)

theorem handleAdminVerify_step (p : HttpPlatform) (s : DiscoveryService) (req : HttpRequest) (now : ℤ) :
    RouteStep p s req (s.handleAdminVerify p.toPlatform req now).1 := by
  unfold handleAdminVerify
  split
  · exact .same
  · split
    · exact .same
    · split
      · exact .same
      · split
        · exact .same
        · split
          · exact .same
          · split
            · exact .same
            · next entry hentry => exact .verified _ entry _ _ hentry

theorem route_step (p : HttpPlatform) (s : DiscoveryService) (req : HttpRequest) (now : ℤ) :
    RouteStep p s req (s.route p req now).1 := by
  unfold route
  split
  · exact .same
  · split
    · exact handleRegister_step p s req
    · split
      · split <;> exact .same
      · split
        · exact .same
        · split
          · exact handleAdminVerify_step p s req now
          · exact .same

/-- The entry of the node is its last accepted registration, and each of them was
newer than the ones before. -/
structure Advancing (nodeId : String) (s : DiscoveryService) : Prop where
  newest : (s.acceptedOf nodeId).head? =
    (s.registrations.get? nodeId).map StoredRegistration.toDiscoveryRegistration
  increasing : (s.acceptedOf nodeId).Pairwise fun later earlier => earlier.timestamp < later.timestamp

@[simp] theorem storedOf_toDiscoveryRegistration (r : DiscoveryRegistration)
    (existing : Option StoredRegistration) : (storedOf r existing).toDiscoveryRegistration = r := by
  unfold storedOf
  split
  · split_ifs <;> rfl
  · rfl

namespace Advancing

/-- A newer registration of the node itself. -/
theorem registered_self (h : Advancing nodeId s) (hid : r.nodeId = nodeId)
    (hpos : 0 < s.registrations.maxSize) (hnew : isStale (s.registrations.get? nodeId) r = false) :
    Advancing nodeId
      { s with
        registrations := s.registrations.set none nodeId (storedOf r (s.registrations.get? nodeId))
        accepted := r :: s.accepted } := by
  have haccepted : (r :: s.accepted).filter (fun r => r.nodeId = nodeId) = r :: s.acceptedOf nodeId := by
    rw [List.filter_cons, if_pos (decide_eq_true hid)]
    rfl
  constructor
  · dsimp only [acceptedOf]
    rw [haccepted, BoundedFifoMap.get?_set_self none nodeId _ hpos, List.head?_cons, Option.map_some,
      storedOf_toDiscoveryRegistration]
  · dsimp only [acceptedOf]
    rw [haccepted]
    refine List.pairwise_cons.mpr ⟨fun e he => ?_, h.increasing⟩
    have hnewest := h.newest
    have hincreasing := h.increasing
    cases hold : s.acceptedOf nodeId with
    | nil => rw [hold] at he; cases he
    | cons last rest =>
      rw [hold] at he hnewest hincreasing
      obtain ⟨entry, hentry, hlast⟩ := Option.map_eq_some_iff.mp hnewest.symm
      have hlast_lt : last.timestamp < r.timestamp := by
        rw [hentry] at hnew
        rw [← hlast]
        exact not_le.mp (of_decide_eq_false hnew)
      rcases List.mem_cons.mp he with rfl | he
      · exact hlast_lt
      · exact ((List.pairwise_cons.mp hincreasing).1 e he).trans hlast_lt

/-- A registration of another node that leaves the entry in place. -/
theorem registered_other (h : Advancing nodeId s) (hid : r.nodeId ≠ nodeId)
    (hpos : 0 < s.registrations.maxSize) (hvictim : s.registrations.victim? none r.nodeId ≠ some nodeId)
    (value : StoredRegistration) :
    Advancing nodeId
      { s with registrations := s.registrations.set none r.nodeId value, accepted := r :: s.accepted } := by
  have haccepted : (r :: s.accepted).filter (fun r => r.nodeId = nodeId) = s.acceptedOf nodeId := by
    rw [List.filter_cons, if_neg (by simpa using hid)]
    rfl
  have hget : (s.registrations.set none r.nodeId value).get? nodeId = s.registrations.get? nodeId := by
    cases hold : s.registrations.get? nodeId with
    | none =>
      cases hset : (s.registrations.set none r.nodeId value).get? nodeId with
      | none => rfl
      | some v =>
        rcases BoundedFifoMap.get?_of_get?_set hset with ⟨hsame, -⟩ | hget
        · exact absurd hsame.symm hid
        · exact absurd (hold.symm.trans hget) (by simp)
    | some v => exact BoundedFifoMap.get?_set_of_survives hpos hid.symm hold (.inr (.inr hvictim))
  constructor
  · dsimp only [acceptedOf]
    rw [haccepted, hget]
    exact h.newest
  · dsimp only [acceptedOf]
    rw [haccepted]
    exact h.increasing

/-- A verdict on an entry changes no registration. -/
theorem verified (h : Advancing nodeId s) {key : String} {entry : StoredRegistration}
    (hentry : s.registrations.get? key = some entry) (verified : Bool) (verifiedAt : Option ℤ) :
    Advancing nodeId
      { s with registrations := s.registrations.set none key { entry with verified, verifiedAt } } := by
  refine ⟨?_, h.increasing⟩
  have hpos := BoundedFifoMap.maxSize_pos_of_get? hentry
  have hmem : key ∈ s.registrations.keys := BoundedFifoMap.has_iff.mp (by
    rw [BoundedFifoMap.has, OrderedMap.has]
    exact Option.isSome_iff_exists.mpr ⟨entry, hentry⟩)
  dsimp only
  rw [BoundedFifoMap.get?_set_of_room hpos (.inl hmem)]
  split_ifs with hkey
  · subst hkey
    have hnewest := h.newest
    rw [hentry] at hnewest
    exact hnewest
  · exact h.newest

theorem step (h : Advancing nodeId s) {e : HttpRequest × ℤ} (hkeeps : s.keeps p nodeId e = true)
    (hstep : DiscoveryService.step p s e = some s') : Advancing nodeId s' := by
  have hroute : s' = (s.route p e.1 e.2).1 := by
    unfold DiscoveryService.step at hstep
    split at hstep
    · cases hstep
    · next hend =>
      cases hstep
      rw [hend]
  have hcases := route_step p s e.1 e.2
  rw [← hroute] at hcases
  cases hcases with
  | same => exact h
  | registered r hr hnew =>
    rw [keeps, hr] at hkeeps
    obtain ⟨hroom, hvictim⟩ := Bool.and_eq_true_iff.mp hkeeps
    have hpos : 0 < s.registrations.maxSize := by
      simpa [BoundedFifoMap.refuses] using hroom
    rcases eq_or_ne r.nodeId nodeId with hid | hid
    · rw [hid] at hnew ⊢
      exact h.registered_self hid hpos hnew
    · exact h.registered_other hid hpos (of_decide_eq_true hvictim) _
  | verified key entry verdict verifiedAt hentry => exact h.verified hentry verdict verifiedAt

end Advancing

/-- In a run that keeps the entry of a node, the timestamps accepted for the node
increase, and its entry is the last of them. -/
theorem accepted_increasing
    (h : (system p).ReachableUnder (fun s e => s.keeps p nodeId e = true) s) :
    (s.acceptedOf nodeId).Pairwise (fun later earlier => earlier.timestamp < later.timestamp) ∧
      (s.acceptedOf nodeId).head? =
        (s.registrations.get? nodeId).map StoredRegistration.toDiscoveryRegistration := by
  have hadvancing : Advancing nodeId s := by
    apply h.invariant (I := Advancing nodeId)
    · rintro _ ⟨adminPassword, maxRegistrations, rfl⟩
      exact ⟨rfl, List.Pairwise.nil⟩
    · intro s e s' hs hkeeps hstep
      exact hs.step hkeeps hstep
  exact ⟨hadvancing.increasing, hadvancing.newest⟩

end

/-! ### An old registration comes back -/

/-- A registration as a node signs it. -/
def signedRegistration (nodeId address : String) (timestamp : ℚ) : DiscoveryRegistration :=
  let unsigned : DiscoveryRegistration := ⟨nodeId, address, none, timestamp, ""⟩
  { unsigned with
    signature := (samplePlatform []).sign nodeId (discoverySigningPayload (samplePlatform []) unsigned) }

def registrationBody (r : DiscoveryRegistration) : JsValue :=
  .obj [("nodeId", .str r.nodeId), ("address", .str r.address), ("timestamp", .num (.finite r.timestamp)),
    ("signature", .str r.signature)]

def register (r : DiscoveryRegistration) : HttpRequest :=
  ⟨"POST", some "/register", none, .complete (utf8 (renderJson (registrationBody r))), false⟩

def firstHut : DiscoveryRegistration := signedRegistration "hut" "198.51.100.1:9000" 1

def secondHut : DiscoveryRegistration := signedRegistration "hut" "203.0.113.7:9000" 2

def stranger : DiscoveryRegistration := signedRegistration "stranger" "192.0.2.9:9000" 3

def registrationPlatform : HttpPlatform :=
  sampleHttpPlatform [registrationBody firstHut, registrationBody secondHut, registrationBody stranger]

/-- A directory with room for the stranger: the old registration of the hut is refused. -/
theorem accepted_increasing_hut :
    ∃ s, (system registrationPlatform).ReachableUnder
        (fun s e => s.keeps registrationPlatform "hut" e = true) s ∧
      s.accepted = [stranger, secondHut, firstHut] ∧
      ((s.acceptedOf "hut").Pairwise (fun later earlier => earlier.timestamp < later.timestamp) ∧
        (s.acceptedOf "hut").head? =
          (s.registrations.get? "hut").map StoredRegistration.toDiscoveryRegistration) := by
  have hrun : (((system registrationPlatform).runUnder (fun s e => s.keeps registrationPlatform "hut" e)
      ⟨none, .empty (2 : ℤ), []⟩ [(register firstHut, 10), (register secondHut, 20),
        (register stranger, 30), (register firstHut, 40)]).map accepted) =
          some [stranger, secondHut, firstHut] := by
    decide +kernel
  obtain ⟨s, hs, haccepted⟩ := Option.map_eq_some_iff.mp hrun
  have hreach : (system registrationPlatform).ReachableUnder
      (fun s e => s.keeps registrationPlatform "hut" e = true) s :=
    System.reachableUnder_of_runUnder ⟨none, (2 : ℤ), rfl⟩ hs
  exact ⟨s, hreach, haccepted, accepted_increasing hreach⟩

/-- The directory holds one entry. A stranger takes it, and then the first
registration of the hut is accepted once more. -/
theorem evicted_registration_replayed :
    ¬∀ (p : HttpPlatform) (s : DiscoveryService) (nodeId : String), (system p).Reachable s →
      (s.acceptedOf nodeId).Pairwise fun later earlier => earlier.timestamp < later.timestamp := by
  intro hclaim
  have hrun : (((system registrationPlatform).run ⟨none, .empty (1 : ℤ), []⟩
      [(register firstHut, 10), (register secondHut, 20), (register stranger, 30),
        (register firstHut, 40)]).map accepted) =
          some [firstHut, stranger, secondHut, firstHut] := by
    decide +kernel
  obtain ⟨s, hs, haccepted⟩ := Option.map_eq_some_iff.mp hrun
  have hincreasing := hclaim registrationPlatform s "hut" (System.reachable_of_run ⟨none, (1 : ℤ), rfl⟩ hs)
  rw [acceptedOf, haccepted] at hincreasing
  exact absurd hincreasing (by decide)

end DiscoveryService
end Arald
