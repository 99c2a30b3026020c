import Arald.Discovery.Service
import Arald.Foundations.Since

/-!
# The badge of the directory

An administrator vouches for the label that a node has at that time. The node may register
again and keep the badge, but not under another label, and a node that was evicted comes
back without it.
-/

namespace Arald

open Foundations

namespace DiscoveryService

/-- The verdict of an administrator: a node id, and whether it is verified. -/
def verdictOf (p : HttpPlatform) (s : DiscoveryService) (req : HttpRequest) : Option (String × Bool) := do
  let url ← p.newUrl (req.url.getD "/")
  guard (req.method = "POST" ∧ url.pathname = "/admin/verify")
  let password ← s.adminPassword.filter fun password => password ≠ ""
  guard (req.authorization = some ("Bearer " ++ password))
  let raw ← (readRequestBody maxBodyBytes req.body).toOption
  let body ← p.toPlatform.parseJson raw
  (readVerification body).toOption

/-- The label under which a node is registered. -/
def labelOf (s : DiscoveryService) (nodeId : String) : Option String :=
  (s.registrations.get? nodeId).bind fun entry => entry.label

/-- What the directory says of a node. -/
def listing (nodeId label : String) (verified : Bool) : JsValue :=
  .obj [("nodeId", .str nodeId), ("label", .str label), ("verified", .bool verified)]

/-- The entries of the directory. -/
def directory (s : DiscoveryService) : List JsValue :=
  s.registrations.values.filterMap fun entry =>
    entry.label.map fun label => listing entry.nodeId label entry.verified

theorem handleDirectory_eq (s : DiscoveryService) : s.handleDirectory = sendJson 200 (.arr s.directory) := rfl

/-- The node is verified under the label. -/
def HasBadge (nodeId label : String) (s : DiscoveryService) : Prop :=
  ∃ entry, s.registrations.get? nodeId = some entry ∧ entry.verified = true ∧ entry.label = some label

/-- Each registration is kept under its own node id. -/
def Keyed (s : DiscoveryService) : Prop :=
  ∀ nodeId entry, s.registrations.get? nodeId = some entry → entry.nodeId = nodeId

section
variable {p : HttpPlatform} {s s' start : DiscoveryService} {req : HttpRequest} {now : ℤ}
  {nodeId label : String} {r : DiscoveryRegistration} {events : List (HttpRequest × ℤ)}

theorem HasBadge.labelOf (h : HasBadge nodeId label s) : s.labelOf nodeId = some label := by
  obtain ⟨entry, hentry, -, hlabel⟩ := h
  rw [DiscoveryService.labelOf, hentry]
  exact hlabel

/-- A stored registration is verified only if the one before was, under the same label. -/
theorem storedOf_verified {existing : Option StoredRegistration} (h : (storedOf r existing).verified = true) :
    ∃ e, existing = some e ∧ e.verified = true ∧ e.label = r.label := by
  unfold storedOf at h
  split at h
  · next e =>
    split_ifs at h with hkept
    exact ⟨e, rfl, hkept.1, hkept.2⟩
  · cases h

/-- Registering brings about no badge. -/
theorem HasBadge.of_handleRegister (h : HasBadge nodeId label (s.handleRegister p.toPlatform req).1) :
    HasBadge nodeId label s := by
  obtain ⟨entry, hentry, hverified, hlabel⟩ := h
  unfold handleRegister at hentry
  split at hentry
  · exact ⟨entry, hentry, hverified, hlabel⟩
  · next r hr =>
    dsimp only at hentry
    split_ifs at hentry with hstale
    · exact ⟨entry, hentry, hverified, hlabel⟩
    · rcases BoundedFifoMap.get?_of_get?_set hentry with ⟨hid, rfl⟩ | hbefore
      · subst hid
        obtain ⟨e, he, hverified', hlabel'⟩ := storedOf_verified hverified
        have hsame : (storedOf r (s.registrations.get? r.nodeId)).label = r.label :=
          congrArg DiscoveryRegistration.label (storedOf_toDiscoveryRegistration r _)
        exact ⟨e, he, hverified', hlabel'.trans (hsame.symm.trans hlabel)⟩
      · exact ⟨entry, hbefore, hverified, hlabel⟩

/-- A badge is old, or its node has just been verified under the label it had. -/
theorem HasBadge.of_handleAdminVerify {url : RequestUrl} (hurl : p.newUrl (req.url.getD "/") = some url)
    (hroute : req.method = "POST" ∧ url.pathname = "/admin/verify")
    (h : HasBadge nodeId label (s.handleAdminVerify p.toPlatform req now).1) :
    HasBadge nodeId label s ∨ (verdictOf p s req = some (nodeId, true) ∧ s.labelOf nodeId = some label) := by
  obtain ⟨entry, hentry, hverified, hlabel⟩ := h
  unfold handleAdminVerify at hentry
  split at hentry
  · exact Or.inl ⟨entry, hentry, hverified, hlabel⟩
  · next password hpassword =>
    split_ifs at hentry with hauthorized
    · exact Or.inl ⟨entry, hentry, hverified, hlabel⟩
    · split at hentry
      · exact Or.inl ⟨entry, hentry, hverified, hlabel⟩
      · next raw hraw =>
        split at hentry
        · exact Or.inl ⟨entry, hentry, hverified, hlabel⟩
        · next body hbody =>
          split at hentry
          · exact Or.inl ⟨entry, hentry, hverified, hlabel⟩
          · next key verdict hverdict =>
            split at hentry
            · exact Or.inl ⟨entry, hentry, hverified, hlabel⟩
            · next old hold =>
              rcases BoundedFifoMap.get?_of_get?_set hentry with ⟨rfl, rfl⟩ | hbefore
              · right
                have hverdictOf : verdictOf p s req = some (nodeId, verdict) := by
                  simp only [verdictOf, hurl, hroute, hpassword, not_not.mp hauthorized, hraw, hbody, hverdict,
                    guard, Except.toOption, Option.bind_eq_bind, Option.bind_some, pure, and_self, if_true]
                rw [show verdict = true from hverified] at hverdictOf
                rw [DiscoveryService.labelOf, hold]
                exact ⟨hverdictOf, hlabel⟩
              · exact Or.inl ⟨entry, hbefore, hverified, hlabel⟩

theorem HasBadge.of_route (h : HasBadge nodeId label (s.route p req now).1) :
    HasBadge nodeId label s ∨ (verdictOf p s req = some (nodeId, true) ∧ s.labelOf nodeId = some label) := by
  unfold route at h
  split at h
  · exact Or.inl h
  · next url hurl =>
    split at h
    · exact Or.inl h.of_handleRegister
    · split at h
      · split at h <;> exact Or.inl h
      · split at h
        · exact Or.inl h
        · split at h
          · next hadmin => exact h.of_handleAdminVerify hurl hadmin
          · exact Or.inl h

theorem step_eq {e : HttpRequest × ℤ} (h : step p s e = some s') : s' = (s.route p e.1 e.2).1 := by
  unfold step at h
  split at h
  · cases h
  · next hend =>
    cases h
    rw [hend]

theorem keyed_of_reachable (h : (system p).Reachable s) : s.Keyed := by
  apply h.invariant (I := Keyed)
  · rintro _ ⟨adminPassword, maxRegistrations, rfl⟩ nodeId entry hentry
    cases hentry
  · rintro s e s' hs - hstep nodeId entry hentry
    have hcases := route_step p s e.1 e.2
    rw [← step_eq hstep] at hcases
    cases hcases with
    | same => exact hs nodeId entry hentry
    | registered r hr hnew =>
      rcases BoundedFifoMap.get?_of_get?_set hentry with ⟨rfl, rfl⟩ | hbefore
      · rw [storedOf_toDiscoveryRegistration]
      · exact hs nodeId entry hbefore
    | verified key old verdict verifiedAt hold =>
      rcases BoundedFifoMap.get?_of_get?_set hentry with ⟨rfl, rfl⟩ | hbefore
      · exact hs nodeId old hold
      · exact hs nodeId entry hbefore

theorem mem_directory {verified : Bool} : listing nodeId label verified ∈ s.directory ↔
    ∃ entry ∈ s.registrations.values, entry.nodeId = nodeId ∧ entry.label = some label ∧ entry.verified = verified := by
  constructor
  · intro h
    obtain ⟨entry, hentry, hmap⟩ := List.mem_filterMap.mp h
    obtain ⟨l, hlabel, hsame⟩ := Option.map_eq_some_iff.mp hmap
    simp only [listing, JsValue.obj.injEq, List.cons.injEq, Prod.mk.injEq, JsValue.str.injEq,
      JsValue.bool.injEq, true_and, and_true] at hsame
    obtain ⟨hid, rfl, hverified⟩ := hsame
    exact ⟨entry, hentry, hid, hlabel, hverified⟩
  · rintro ⟨entry, hentry, rfl, hlabel, rfl⟩
    exact List.mem_filterMap.mpr ⟨entry, hentry, by rw [hlabel]; rfl⟩

theorem Keyed.hasBadge_of_listed (h : s.Keyed) (hlisted : listing nodeId label true ∈ s.directory) :
    HasBadge nodeId label s := by
  obtain ⟨entry, hentry, hid, hlabel, hverified⟩ := mem_directory.mp hlisted
  obtain ⟨key, hmem⟩ := OrderedMap.mem_values.mp hentry
  have hget := OrderedMap.get?_eq_some.mpr hmem
  obtain rfl := (h key entry hget).symm.trans hid
  exact ⟨entry, hget, hverified, hlabel⟩

/-- A node that the directory lists as verified under a label was verified by an administrator
while it had this label, and has had it since. -/
theorem listed_since_verified (hstart : (system p).Init start)
    (hrun : (system p).run start events = some s) (hlisted : listing nodeId label true ∈ s.directory) :
    (system p).Since (fun s e => verdictOf p s e.1 = some (nodeId, true))
      (fun s => s.labelOf nodeId = some label) start events := by
  have hkeyed := keyed_of_reachable (System.reachable_of_run hstart hrun)
  apply System.since_of_run (I := HasBadge nodeId label) _ _ _ hstart hrun (hkeyed.hasBadge_of_listed hlisted)
  · rintro _ ⟨adminPassword, maxRegistrations, rfl⟩ ⟨entry, hentry, -⟩
    cases hentry
  · intro s hs
    exact hs.labelOf
  · intro s e s' _ hstep hs'
    rw [step_eq hstep] at hs'
    exact hs'.of_route

end

/-! ### A node with a badge -/

def labelled : DiscoveryRegistration :=
  let unsigned : DiscoveryRegistration := ⟨"hut", "198.51.100.1:9000", some "Rifugio", 1, ""⟩
  { unsigned with
    signature := (samplePlatform []).sign "hut" (discoverySigningPayload (samplePlatform []) unsigned) }

def labelledBody : JsValue :=
  .obj [("nodeId", .str labelled.nodeId), ("address", .str labelled.address), ("label", .ofString labelled.label),
    ("timestamp", .num (.finite labelled.timestamp)), ("signature", .str labelled.signature)]

def verdictBody : JsValue := .obj [("nodeId", .str "hut"), ("verified", .bool true)]

/-- The hut registers, and is verified. -/
def verifyHut : List (HttpRequest × ℤ) := [
  (⟨"POST", some "/register", none, .complete (utf8 (renderJson labelledBody)), false⟩, 10),
  (⟨"POST", some "/admin/verify", some "Bearer secret", .complete (utf8 (renderJson verdictBody)), false⟩, 20)]

theorem listed_since_verified_hut :
    (system (sampleHttpPlatform [labelledBody, verdictBody])).Since
      (fun s e => verdictOf (sampleHttpPlatform [labelledBody, verdictBody]) s e.1 = some ("hut", true))
      (fun s => s.labelOf "hut" = some "Rifugio") ⟨some "secret", .empty (2 : ℤ), []⟩ verifyHut := by
  have hrun : (((system (sampleHttpPlatform [labelledBody, verdictBody])).run
      ⟨some "secret", .empty (2 : ℤ), []⟩ verifyHut).map fun s => decide (∃ entry ∈ s.registrations.values,
        entry.nodeId = "hut" ∧ entry.label = some "Rifugio" ∧ entry.verified = true)) = some true := by
    decide +kernel
  obtain ⟨s, hs, hlisted⟩ := Option.map_eq_some_iff.mp hrun
  exact listed_since_verified ⟨some "secret", (2 : ℤ), rfl⟩ hs (mem_directory.mpr (of_decide_eq_true hlisted))

end DiscoveryService
end Arald
