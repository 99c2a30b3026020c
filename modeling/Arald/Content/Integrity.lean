import Arald.Content.Effects

/-!
# The id of what was fetched

A request is verified against the metadata of the first reply that carries a
usable size. The assembled bytes hash to the id in that metadata, so they hash
to the requested id as long as the replies that size a transfer name the content
that was asked for. Nothing in `handleContentFound` compares the two.
-/

namespace Arald

open Foundations

namespace PendingContentEntry

variable {e : PendingContentEntry} {source : String} {metadata? : Option ContentMetadata}
  {metadata : ContentMetadata}

theorem sizeTransfer_metadata : (e.sizeTransfer source metadata).metadata = some metadata := by
  unfold sizeTransfer
  dsimp only
  split
  · rfl
  · rfl

/-- Only a reply that sizes the transfer sets the metadata. -/
theorem found_metadata (e : PendingContentEntry) (source : String) (metadata? : Option ContentMetadata) :
    (e.found source metadata?).metadata = e.metadata ∨
    (e.sized = false ∧ e.knows source = false ∧ ∃ metadata, metadata? = some metadata ∧
      (e.found source metadata?).metadata = some metadata) := by
  unfold found
  cases hknows : e.knows source with
  | true => exact .inl rfl
  | false =>
    simp only [Bool.false_eq_true, if_false]
    cases hsized : e.sized with
    | false =>
      cases metadata? with
      | none => exact .inl rfl
      | some metadata => exact .inr ⟨rfl, trivial, metadata, rfl, sizeTransfer_metadata⟩
    | true =>
      left
      simp only [Bool.not_true, Bool.false_eq_true, if_false]
      cases hnext : e.tryAssignUnassignedRange source with
      | some e1 => exact (tryAssignUnassignedRange_same hnext).metadata
      | none =>
        dsimp only
        split
        · rfl
        · rfl

theorem recordChunk_metadata (chunkIndex totalChunks : ℤ) :
    (e.recordChunk chunkIndex totalChunks).metadata = e.metadata := by
  unfold recordChunk
  dsimp only
  split
  · rfl
  · rfl

end PendingContentEntry

namespace ContentNode

/-- A reply that would size an open request names the content it is for. -/
def foundNamesRequest (n : ContentNode) : ContentEvent → Bool
  | .receive source (.found contentId (some metadata)) _ =>
    match n.pendingContentRequests.get? contentId with
    | some entry => entry.sized || entry.knows source || metadata.contentId = contentId
    | none => true
  | _ => true

/-- The metadata of an open request is for the content it asks for. -/
def MetadataNamed (contentId : String) (entry : PendingContentEntry) : Prop :=
  ∀ metadata, entry.metadata = some metadata → metadata.contentId = contentId

theorem metadataNamed_entryInvariant : EntryInvariant MetadataNamed where
  fresh := fun contentId metadata h => by simp at h
  flushed := fun _ _ h => h
  join := fun _ _ _ h => h
  leave := fun _ _ _ h => h

theorem MetadataNamed.of_same {contentId : String} {e e' : PendingContentEntry}
    (h : MetadataNamed contentId e) (hsame : e.SameTransfer e') : MetadataNamed contentId e' := by
  intro metadata hmetadata
  rw [hsame.metadata] at hmetadata
  exact h metadata hmetadata

/-- The named metadata, and with it the ids of what was resolved. -/
structure Integral (p : Platform) (n : ContentNode) : Prop where
  requests : n.OpenRequests MetadataNamed
  resolutions : ∀ r ∈ n.resolutions, p.sha256 r.data = r.contentId

variable {p : Platform} {n n' : ContentNode} {e : ContentEvent}

theorem Integral.step (h : Integral p n) (hwf : n.OpenRequests fun _ entry => entry.WellFormed)
    (hcondition : n.foundNamesRequest e = true) (heffect : Effect p n n' e) : Integral p n' := by
  have hP := metadataNamed_entryInvariant
  have hkept : ∀ {pending assembler}, n'.HasCore pending assembler n.resolutions →
      ∀ r ∈ n'.resolutions, p.sha256 r.data = r.contentId := by
    intro pending assembler hcore
    rw [hcore.resolutions]
    exact h.resolutions
  cases heffect with
  | none e hcore => exact ⟨h.requests.same hcore, hkept hcore⟩
  | asked contentId waiter now hcore => exact ⟨h.requests.set hcore (hP.asked h.requests waiter), hkept hcore⟩
  | left contentId waiter entry hget hcore =>
    exact ⟨h.requests.set hcore (h.requests contentId entry hget), hkept hcore⟩
  | expired contentId waiter hcore => exact ⟨h.requests.delete hcore, hkept hcore⟩
  | found source contentId metadata? now entry hget hcore =>
    refine ⟨h.requests.set hcore ?_, hkept hcore⟩
    intro metadata hmetadata
    rcases PendingContentEntry.found_metadata entry source metadata? with hsame | ⟨hunsized, hunknown, metadata', rfl, hadopted⟩
    · exact h.requests contentId entry hget metadata (hsame ▸ hmetadata)
    · obtain rfl := Option.some.inj (hadopted.symm.trans hmetadata)
      simpa [foundNamesRequest, hget, hunsized, hunknown] using hcondition
  | abandoned e contentId providerId entry hget hcore =>
    have hsame := PendingContentEntry.abandonFetch_same entry providerId
    exact ⟨h.requests.set hcore (hP.flushed contentId _ ((h.requests contentId entry hget).of_same hsame)), hkept hcore⟩
  | strayChunk source contentId chunkIndex totalChunks data now hget hadmits hcore =>
    exact ⟨h.requests.same hcore, hkept hcore⟩
  | chunk source contentId chunkIndex totalChunks data now entry hget hactive hadmits hcore =>
    refine ⟨h.requests.set hcore ?_, hkept hcore⟩
    intro metadata hmetadata
    have hsame := PendingContentEntry.recordChunk_metadata (e := entry) chunkIndex totalChunks
    exact h.requests contentId entry hget metadata (hsame ▸ hmetadata)
  | retired source contentId metadata now entry assembler hget hactive _ hcore =>
    have hsame := PendingContentEntry.retire_same entry source
    exact ⟨h.requests.set hcore (hP.flushed contentId _ ((h.requests contentId entry hget).of_same hsame)), hkept hcore⟩
  | rejected source contentId metadata now entry hget hactive hcore =>
    exact ⟨h.requests.delete hcore, hkept hcore⟩
  | resolved source contentId metadata now entry data hget hactive htotal hdata hverifies hcore =>
    refine ⟨h.requests.delete hcore, ?_⟩
    obtain ⟨total, htotal⟩ := htotal
    have hsome := (hwf contentId entry hget).sized ((hwf contentId entry hget).sized_of_known htotal)
    obtain ⟨own, hown⟩ := Option.isSome_iff_exists.mp hsome
    intro r hr
    rw [hcore.resolutions] at hr
    rcases List.mem_append.mp hr with hr | hr
    · exact h.resolutions r hr
    · obtain rfl := List.mem_singleton.mp hr
      have hdigest := (ChunkAssembler.tryComplete_eq_some hdata).1
      rw [hown, Option.getD_some] at hdigest
      exact hdigest.trans (h.requests contentId entry hget own hown)

/-- In every run in which the replies that size a transfer name the content
they are for, what is fetched for an id hashes to that id. -/
theorem fetched_content_integral
    (h : (system p).ReachableUnder (fun n e => n.foundNamesRequest e = true) n) :
    ∀ r ∈ n.resolutions, p.sha256 r.data = r.contentId := by
  have hinv : Integral p n := by
    apply h.invariant_of (J := fun n => n.OpenRequests fun _ entry => entry.WellFormed)
    · exact fun s hs => wellFormed_of_reachable hs.reachable
    · rintro s ⟨nodeId, o, rfl⟩
      exact ⟨fun contentId entry hget => by simp [create] at hget, by simp [create]⟩
    · rintro s e s' hwf hs hcondition hstep -
      obtain rfl := Option.some.inj hstep
      exact hs.step hwf hcondition (effect_of_step p s e)
  exact hinv.resolutions

/-! ### Runs -/

/-- A runtime whose digest is the text of the bytes, and so has no collisions. -/
def plainRuntime : Platform :=
  { samplePlatform [] with sha256 := fun data => String.ofList (data.map fun byte => Char.ofNat byte.toNat) }

theorem plainRuntime_injective : Function.Injective plainRuntime.sha256 := by
  intro a b h
  have hlist : a.map (fun byte => Char.ofNat byte.toNat) = b.map fun byte => Char.ofNat byte.toNat :=
    String.ofList_injective h
  apply List.map_injective_iff.mpr ?_ hlist
  intro x y hxy
  have hx := x.toNat_lt
  have hy := y.toNat_lt
  have hval : ∀ k : ℕ, k < 256 → (Char.ofNat k).toNat = k := by decide +kernel
  dsimp only at hxy
  have hnat : x.toNat = y.toNat := by
    rw [← hval x.toNat hx, ← hval y.toNat hy, hxy]
  exact UInt8.toNat_inj.mp hnat

/-- Metadata for some bytes, signed by a publisher, with a claimed priority and expiry. -/
def signedNote (publisherId : String) (data : Buffer) (priority : JsValue) (expiresAt : Option ℚ) :
    ContentMetadata :=
  let p := plainRuntime
  let unsigned := { publishedMetadata p publisherId data with priority := priority, expiresAt := expiresAt }
  { unsigned with signature := some (p.sign publisherId (contentSigningPayload p unsigned)) }

/-- A one-chunk fetch of `wanted`, whose provider replies with the metadata and
the bytes of `sent`. -/
def fetchOf (wanted sent : Buffer) : List ContentEvent :=
  let contentId := plainRuntime.sha256 wanted
  let metadata := publishedMetadata plainRuntime "mallory" sent
  [.getContent contentId 0 1,
    .receive "mallory" (.found contentId (some metadata)) 2,
    .receive "mallory" (.chunk contentId (some 0) (some 1) sent) 3,
    .receive "mallory" (.complete contentId (some metadata)) 4]

/-- The provider serves what was asked for. -/
theorem fetched_content_integral_honest :
    ∃ n, (system plainRuntime).ReachableUnder (fun n e => n.foundNamesRequest e = true) n ∧
      n.resolutions.length = 1 ∧ ∀ r ∈ n.resolutions, plainRuntime.sha256 r.data = r.contentId := by
  have hrun : (((system plainRuntime).runUnder (fun n e => n.foundNamesRequest e) (create "me" {})
      (fetchOf [65] [65])).map fun n => n.resolutions.length) = some 1 := by
    decide +kernel
  obtain ⟨n, hn, hlength⟩ := Option.map_eq_some_iff.mp hrun
  have hreach : (system plainRuntime).ReachableUnder (fun n e => n.foundNamesRequest e = true) n :=
    System.reachableUnder_of_runUnder ⟨"me", {}, rfl⟩ hn
  exact ⟨n, hreach, hlength, fetched_content_integral hreach⟩

/-- A provider that signs another content as its own has it accepted for the
requested id, although the digest has no collisions. -/
theorem fetched_other_content :
    ¬∀ p : Platform, Function.Injective p.sha256 → ∀ n, (system p).Reachable n →
      ∀ r ∈ n.resolutions, p.sha256 r.data = r.contentId := by
  intro hclaim
  have hrun : (((system plainRuntime).run (create "me" {}) (fetchOf [65] [66])).map fun n =>
      n.resolutions.map fun r => (plainRuntime.sha256 r.data, r.contentId)) = some [("B", "A")] := by
    decide +kernel
  obtain ⟨n, hn, hlog⟩ := Option.map_eq_some_iff.mp hrun
  have hreach : (system plainRuntime).Reachable n := System.reachable_of_run ⟨"me", {}, rfl⟩ hn
  have hmem : ("B", "A") ∈ n.resolutions.map fun r => (plainRuntime.sha256 r.data, r.contentId) := by
    simp [hlog]
  obtain ⟨r, hr, hpair⟩ := List.mem_map.mp hmem
  have hsame := hclaim plainRuntime plainRuntime_injective n hreach r hr
  obtain ⟨hdigest, hid⟩ := Prod.ext_iff.mp hpair
  dsimp only at hdigest hid
  rw [hdigest, hid] at hsame
  exact absurd hsame (by decide)

end ContentNode
end Arald
