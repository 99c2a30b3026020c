import Arald.Web.AuthThrottle

/-!
# What a flood of wrong passwords can do

While no tracked key is evicted, the throttle's map holds for every address,
and for every /64 prefix, the current window of a tally of its examined
attempts: a window starts with a failure, counts the failures before its end,
and a correct password of the address closes it. No window outgrows its limit,
since a full one locks the address. The machine's own addresses are exempt, and
nothing bounds what they try.
-/

namespace Arald

open Foundations

/-! ### Windows of failures -/

structure FailureWindow where
  start : ℚ
  count : ℕ

/-- The failures so far, in windows that are counted from their first failure. -/
structure Tally where
  current : Option FailureWindow
  past : List FailureWindow

namespace Tally

def empty : Tally := ⟨none, []⟩

def windows (τ : Tally) : List FailureWindow := τ.current.toList ++ τ.past

def fail (τ : Tally) (windowMs now : ℚ) : Tally :=
  match τ.current with
  | none => ⟨some ⟨now, 1⟩, τ.past⟩
  | some w =>
    if now < w.start + windowMs then ⟨some ⟨w.start, w.count + 1⟩, τ.past⟩
    else ⟨some ⟨now, 1⟩, w :: τ.past⟩

def close (τ : Tally) : Tally := ⟨none, τ.windows⟩

/-- Go through the attempts, of which some are failures and some close the window. -/
def ofLog (windowMs : ℚ) (fails closes : ExaminedAttempt → Bool) (log : List ExaminedAttempt) : Tally :=
  log.foldl (fun τ x =>
    if closes x then τ.close else if fails x then τ.fail windowMs x.time else τ) .empty

theorem ofLog_append (windowMs : ℚ) (fails closes : ExaminedAttempt → Bool)
    (log : List ExaminedAttempt) (x : ExaminedAttempt) :
    ofLog windowMs fails closes (log ++ [x]) =
      if closes x then (ofLog windowMs fails closes log).close
      else if fails x then (ofLog windowMs fails closes log).fail windowMs x.time
      else ofLog windowMs fails closes log := by
  simp only [ofLog, List.foldl_append, List.foldl_cons, List.foldl_nil]

/-- The entry of a key is the current window, and no window exceeds the limit. -/
structure Agrees (τ : Tally) (entry : Option AuthEntry) (limit : ℕ) : Prop where
  entry : entry = τ.current.map fun w => ⟨w.count, w.start, limit⟩
  bounded : ∀ w ∈ τ.windows, w.count ≤ limit

theorem Agrees.empty (limit : ℕ) : Tally.empty.Agrees none limit := by
  constructor <;> simp [Tally.empty, windows]

theorem Agrees.close {τ : Tally} {entry : Option AuthEntry} {limit : ℕ} (h : τ.Agrees entry limit) :
    τ.close.Agrees none limit := by
  constructor
  · rfl
  · simpa [Tally.close, windows] using h.bounded

/-- A failure is examined only when the current window is not full, or over. -/
theorem Agrees.fail {τ : Tally} {entry : Option AuthEntry} {limit : ℕ} {windowMs now : ℚ}
    (h : τ.Agrees entry limit) (hlimit : 0 < limit)
    (hopen : ∀ e, entry = some e → now < e.since + windowMs → e.count < limit) :
    (τ.fail windowMs now).Agrees (some (AuthEntry.next windowMs now limit entry)) limit := by
  obtain ⟨current, past⟩ := τ
  obtain ⟨hentry, hbounded⟩ := h
  subst hentry
  cases current with
  | none =>
    refine ⟨rfl, ?_⟩
    intro w hw
    rcases List.mem_cons.mp (by simpa [Tally.fail, windows] using hw) with rfl | hpast
    · exact hlimit
    · exact hbounded w (by simpa [windows] using hpast)
  | some first =>
    by_cases hover : now < first.start + windowMs
    · have hnot : ¬windowMs ≤ now - first.start := by linarith
      have hroom : first.count < limit := hopen _ rfl hover
      refine ⟨by simp [Tally.fail, AuthEntry.next, hover, hnot], ?_⟩
      intro w hw
      rcases List.mem_cons.mp (by simpa [Tally.fail, windows, hover] using hw) with rfl | hpast
      · exact hroom
      · exact hbounded w (by simp [windows, hpast])
    · have hyes : windowMs ≤ now - first.start := by linarith
      refine ⟨by simp [Tally.fail, AuthEntry.next, hover, hyes], ?_⟩
      intro w hw
      have hcases : w = ⟨now, 1⟩ ∨ w = first ∨ w ∈ past := by
        simpa [Tally.fail, windows, hover] using hw
      rcases hcases with rfl | hpast
      · exact hlimit
      · exact hbounded w (by simpa [windows] using hpast)

end Tally

/-! ### Attempts of an address and of a prefix -/

namespace ExaminedAttempt

def isFrom (x : ExaminedAttempt) (address : String) : Bool := normalizeAddress x.address = address

def isWithin (x : ExaminedAttempt) (net : String) : Bool :=
  isIpv6 (normalizeAddress x.address) && ipLimiterKey x.address = net

def failed (x : ExaminedAttempt) : Bool := !x.correct && !x.exempt

end ExaminedAttempt

namespace AuthRun

variable {s s' : AuthRun} {e : AuthAttempt}

/-- The wrong passwords of an address; a correct one closes the window. -/
def addressTally (s : AuthRun) (address : String) : Tally :=
  .ofLog s.throttle.windowMs (fun x => x.isFrom address && x.failed)
    (fun x => x.isFrom address && x.correct) s.examined

/-- The wrong passwords of a /64 prefix, whoever knows the correct one. -/
def prefixTally (s : AuthRun) (net : String) : Tally :=
  .ofLog s.throttle.windowMs (fun x => x.isWithin net && x.failed) (fun _ => false) s.examined

/-- Fewer keys than the map may track have reached their limit. -/
def hasUnreached (t : AuthFailureThrottle) : Bool :=
  (((t.entries.map.count fun _ e => e.reached : ℕ) : ℤ) : WithTop ℤ) < t.entries.maxSize

/-- No tracked key is evicted, and fewer keys than may be tracked reached their limit. -/
def calm (s : AuthRun) (e : AuthAttempt) : Bool :=
  hasUnreached s.throttle &&
    (e.correct || s.throttle.isLocal e.address e.localAddresses ||
      AuthFailureThrottle.evictsNone e.recordedAt s.throttle (s.throttle.keysOf e.address))

theorem step_eq (h : system.step s e = some s') :
    s.clock ≤ e.checkedAt ∧ e.checkedAt ≤ e.recordedAt ∧
      s.throttle.lockedForSeconds e.address e.checkedAt = 0 ∧ s' = s.authorize e := by
  simp only [system] at h
  split_ifs at h with hguard
  exact ⟨hguard.1, hguard.2.1, hguard.2.2, (Option.some.inj h).symm⟩

theorem maxFailures_authorize : (s.authorize e).throttle.maxFailures = s.throttle.maxFailures := by
  simp only [authorize, AuthFailureThrottle.recordFailure]
  split_ifs
  · rfl
  · rfl
  · exact AuthFailureThrottle.maxFailures_recordKeys _

theorem windowMs_authorize : (s.authorize e).throttle.windowMs = s.throttle.windowMs := by
  simp only [authorize, AuthFailureThrottle.recordFailure]
  split_ifs
  · rfl
  · rfl
  · exact AuthFailureThrottle.windowMs_recordKeys _

/-! ### One attempt -/

/-- What an attempt does to the entries: a correct password clears the address,
an exempt failure counts nowhere, and another one counts for every key. -/
inductive Attempted (s : AuthRun) (e : AuthAttempt) : Prop
  | succeeded (correct : e.correct = true)
      (entries : ∀ k, (s.authorize e).throttle.entries.get? k =
        if k = "a:" ++ normalizeAddress e.address then none else s.throttle.entries.get? k)
  | exempted (wrong : e.correct = false)
      (exempt : s.throttle.isLocal e.address e.localAddresses = true)
      (entries : (s.authorize e).throttle.entries = s.throttle.entries)
  | failed (wrong : e.correct = false)
      (counted : s.throttle.isLocal e.address e.localAddresses = false)
      (touched : ∀ key ∈ s.throttle.keysOf e.address,
        (s.authorize e).throttle.entries.get? key.1 =
          some (AuthEntry.next s.throttle.windowMs e.recordedAt key.2 (s.throttle.entries.get? key.1)))
      (others : ∀ k, k ∉ (s.throttle.keysOf e.address).map Prod.fst →
        (s.authorize e).throttle.entries.get? k = s.throttle.entries.get? k)

theorem attempted (hcalm : s.calm e = true) : s.Attempted e := by
  cases hcorrect : e.correct with
  | true =>
    refine .succeeded hcorrect ?_
    intro k
    simp only [authorize, hcorrect, if_true, AuthFailureThrottle.entries_recordSuccess]
    exact BoundedFifoMap.get?_delete _ _ _
  | false =>
    cases hlocal : s.throttle.isLocal e.address e.localAddresses with
    | true =>
      refine .exempted hcorrect hlocal ?_
      simp [authorize, hcorrect, AuthFailureThrottle.recordFailure, hlocal]
    | false =>
      have hroom : AuthFailureThrottle.evictsNone e.recordedAt s.throttle
          (s.throttle.keysOf e.address) = true := by
        simpa [calm, hcorrect, hlocal] using (Bool.and_eq_true_iff.mp hcalm).2
      have hthrottle : (s.authorize e).throttle =
          (s.throttle.keysOf e.address).foldl (fun t key => t.recordKey e.recordedAt key) s.throttle := by
        simp [authorize, hcorrect, AuthFailureThrottle.recordFailure, hlocal]
      refine .failed hcorrect hlocal ?_ ?_
      · intro key hkey
        rw [hthrottle]
        exact AuthFailureThrottle.get?_recordKeys_of_mem hroom
          (AuthFailureThrottle.nodup_keysOf e.address) hkey
      · intro k hk
        rw [hthrottle]
        exact AuthFailureThrottle.get?_recordKeys_of_notMem hroom hk

/-- An attempt changes nothing for a key that its address does not have. -/
theorem Attempted.get?_of_notMem (h : s.Attempted e) {k : String}
    (hk : k ∉ (s.throttle.keysOf e.address).map Prod.fst) :
    (s.authorize e).throttle.entries.get? k = s.throttle.entries.get? k := by
  cases h with
  | succeeded _ entries =>
    have hne : k ≠ "a:" ++ normalizeAddress e.address := by
      rintro rfl
      exact hk (List.mem_map.mpr ⟨_, AuthFailureThrottle.mem_keysOf.mpr (.inl rfl), rfl⟩)
    rw [entries k, if_neg hne]
  | exempted _ _ entries => rw [entries]
  | failed _ _ _ others => exact others k hk

/-! ### Locks stay -/

/-- A key that is still locked later is none of the keys of an address that may try now. -/
theorem notMem_of_locked {address : Option String} {key : String × ℕ} {now : ℚ}
    (hfree : s.throttle.lockedForSeconds e.address e.checkedAt = 0) (hlater : e.checkedAt ≤ now)
    (hkey : key ∈ s.throttle.keysOf address) (hlocked : 0 < s.throttle.keyLockedForSeconds now key) :
    key.1 ∉ (s.throttle.keysOf e.address).map Prod.fst := by
  intro hmem
  obtain ⟨key', hkey', hsame⟩ := List.mem_map.mp hmem
  obtain rfl := AuthFailureThrottle.eq_of_mem_keysOf hkey' hkey hsame
  obtain ⟨entry, hget, hcount, hopen⟩ := AuthFailureThrottle.keyLockedForSeconds_pos.mp hlocked
  have hnow : 0 < s.throttle.keyLockedForSeconds e.checkedAt key' :=
    AuthFailureThrottle.keyLockedForSeconds_pos.mpr ⟨entry, hget, hcount, hlater.trans_lt hopen⟩
  have hle : s.throttle.keyLockedForSeconds e.checkedAt key' ≤ _ :=
    AuthFailureThrottle.keyLockedForSeconds_le hkey'
  omega

theorem keyLockedForSeconds_congr {t t' : AuthFailureThrottle} {key : String × ℕ} (now : ℚ)
    (hentry : t'.entries.get? key.1 = t.entries.get? key.1) (hwindow : t'.windowMs = t.windowMs) :
    t'.keyLockedForSeconds now key = t.keyLockedForSeconds now key := by
  rw [AuthFailureThrottle.keyLockedForSeconds, AuthFailureThrottle.keyLockedForSeconds, hentry, hwindow]

theorem keysOf_authorize (address : Option String) :
    (s.authorize e).throttle.keysOf address = s.throttle.keysOf address := by
  rw [AuthFailureThrottle.keysOf, AuthFailureThrottle.keysOf, maxFailures_authorize]

/-- No attempt shortens a wait that lasts beyond it. -/
theorem lockedForSeconds_step (hstep : system.step s e = some s') (hcalm : s.calm e = true)
    (address : Option String) {now : ℚ} (hnow : s'.clock ≤ now) :
    s.throttle.lockedForSeconds address now ≤ s'.throttle.lockedForSeconds address now := by
  obtain ⟨-, hrecorded, hfree, rfl⟩ := step_eq hstep
  have hlater : e.checkedAt ≤ now := hrecorded.trans hnow
  refine AuthFailureThrottle.lockedForSeconds_le_iff.mpr
    ⟨AuthFailureThrottle.lockedForSeconds_nonneg address, ?_⟩
  intro key hkey
  have hnonneg : 0 ≤ s.throttle.keyLockedForSeconds now key :=
    AuthFailureThrottle.keyLockedForSeconds_nonneg key
  rcases hnonneg.eq_or_lt with hzero | hlocked
  · rw [← hzero]
    exact AuthFailureThrottle.lockedForSeconds_nonneg address
  · have hother := notMem_of_locked hfree hlater hkey hlocked
    have hentry := (attempted hcalm).get?_of_notMem hother
    rw [← keyLockedForSeconds_congr now hentry windowMs_authorize]
    exact AuthFailureThrottle.keyLockedForSeconds_le (by rwa [keysOf_authorize])

theorem clock_le_of_run {es : List AuthAttempt} (h : system.runUnder calm s es = some s') :
    s.clock ≤ s'.clock := by
  induction es generalizing s with
  | nil =>
    obtain rfl : s = s' := by simpa [System.runUnder] using h
    exact le_rfl
  | cons e es ih =>
    rw [System.runUnder] at h
    split_ifs at h
    obtain ⟨t, hstep, hrest⟩ := Option.bind_eq_some_iff.mp h
    obtain ⟨hchecked, hrecorded, -, rfl⟩ := step_eq hstep
    exact (hchecked.trans hrecorded).trans (ih hrest)

theorem lockedForSeconds_run {es : List AuthAttempt} (h : system.runUnder calm s es = some s')
    (address : Option String) {now : ℚ} (hnow : s'.clock ≤ now) :
    s.throttle.lockedForSeconds address now ≤ s'.throttle.lockedForSeconds address now := by
  induction es generalizing s with
  | nil =>
    obtain rfl : s = s' := by simpa [System.runUnder] using h
    exact le_rfl
  | cons e es ih =>
    rw [System.runUnder] at h
    split_ifs at h with hcalm
    obtain ⟨t, hstep, hrest⟩ := Option.bind_eq_some_iff.mp h
    have hfirst := lockedForSeconds_step hstep hcalm address ((clock_le_of_run hrest).trans hnow)
    exact hfirst.trans (ih hrest)

/-- An attempt from another network changes no wait. -/
theorem lockedForSeconds_of_other (hcalm : s.calm e = true) {address : Option String}
    (hother : ipLimiterKey address ≠ ipLimiterKey e.address) (now : ℚ) :
    (s.authorize e).throttle.lockedForSeconds address now = s.throttle.lockedForSeconds address now := by
  have hkeys : ∀ key ∈ s.throttle.keysOf address,
      (s.authorize e).throttle.keyLockedForSeconds now key = s.throttle.keyLockedForSeconds now key := by
    intro key hkey
    have hentry := (attempted hcalm).get?_of_notMem (AuthFailureThrottle.disjoint_keysOf hother hkey)
    exact keyLockedForSeconds_congr now hentry windowMs_authorize
  apply le_antisymm
  · refine AuthFailureThrottle.lockedForSeconds_le_iff.mpr
      ⟨AuthFailureThrottle.lockedForSeconds_nonneg address, ?_⟩
    intro key hkey
    rw [keysOf_authorize] at hkey
    rw [hkeys key hkey]
    exact AuthFailureThrottle.keyLockedForSeconds_le hkey
  · refine AuthFailureThrottle.lockedForSeconds_le_iff.mpr
      ⟨AuthFailureThrottle.lockedForSeconds_nonneg address, ?_⟩
    intro key hkey
    rw [← hkeys key hkey]
    exact AuthFailureThrottle.keyLockedForSeconds_le (by rwa [keysOf_authorize])

/-! ### Windows are bounded -/

/-- Every key's entry is the current window of its tally. -/
structure Counted (s : AuthRun) : Prop where
  addresses : ∀ a, (s.addressTally a).Agrees (s.throttle.entries.get? ("a:" ++ a)) s.throttle.maxFailures
  prefixes : ∀ net, (s.prefixTally net).Agrees (s.throttle.entries.get? ("p:" ++ net))
    (s.throttle.maxFailures * AuthFailureThrottle.prefixLimitFactor)

/-- An address that may try has room in the open window of each of its keys. -/
theorem room_of_free {key : String × ℕ}
    (hfree : s.throttle.lockedForSeconds e.address e.checkedAt = 0) (hrecorded : e.checkedAt ≤ e.recordedAt)
    (hkey : key ∈ s.throttle.keysOf e.address) (entry : AuthEntry)
    (hget : s.throttle.entries.get? key.1 = some entry)
    (hopen : e.recordedAt < entry.since + s.throttle.windowMs) : entry.count < key.2 := by
  by_contra hfull
  have hlocked : 0 < s.throttle.keyLockedForSeconds e.checkedAt key :=
    AuthFailureThrottle.keyLockedForSeconds_pos.mpr
      ⟨entry, hget, not_lt.mp hfull, hrecorded.trans_lt hopen⟩
  have hle : s.throttle.keyLockedForSeconds e.checkedAt key ≤ _ :=
    AuthFailureThrottle.keyLockedForSeconds_le hkey
  omega

theorem addressTally_authorize (a : String) :
    (s.authorize e).addressTally a =
      if decide (normalizeAddress e.address = a) && e.correct then (s.addressTally a).close
      else if decide (normalizeAddress e.address = a) &&
          (!e.correct && !s.throttle.isLocal e.address e.localAddresses) then
        (s.addressTally a).fail s.throttle.windowMs e.recordedAt
      else s.addressTally a := by
  simp only [addressTally, windowMs_authorize]
  exact Tally.ofLog_append _ _ _ _ _

theorem prefixTally_authorize (net : String) :
    (s.authorize e).prefixTally net =
      if (isIpv6 (normalizeAddress e.address) && decide (ipLimiterKey e.address = net)) &&
          (!e.correct && !s.throttle.isLocal e.address e.localAddresses) then
        (s.prefixTally net).fail s.throttle.windowMs e.recordedAt
      else s.prefixTally net := by
  simp only [prefixTally, windowMs_authorize]
  rw [authorize, Tally.ofLog_append, if_neg Bool.false_ne_true]
  rfl

theorem Counted.address_step (h : s.Counted) (hcalm : s.calm e = true)
    (hrecorded : e.checkedAt ≤ e.recordedAt)
    (hfree : s.throttle.lockedForSeconds e.address e.checkedAt = 0) (a : String) :
    ((s.authorize e).addressTally a).Agrees ((s.authorize e).throttle.entries.get? ("a:" ++ a))
      s.throttle.maxFailures := by
  have hold := h.addresses a
  rw [addressTally_authorize]
  by_cases ha : normalizeAddress e.address = a
  · subst ha
    have hkey : ("a:" ++ normalizeAddress e.address, s.throttle.maxFailures) ∈
        s.throttle.keysOf e.address := AuthFailureThrottle.mem_keysOf.mpr (.inl rfl)
    cases attempted hcalm with
    | succeeded correct entries =>
      simp only [decide_true, correct, Bool.and_self, if_true, entries]
      exact hold.close
    | exempted wrong exempt entries => simpa [wrong, exempt, entries] using hold
    | failed wrong counted touched others =>
      simp only [decide_true, wrong, counted, Bool.and_false, Bool.false_eq_true, if_false,
        Bool.not_false, Bool.and_self, if_true, touched _ hkey]
      exact hold.fail s.throttle.maxFailures_pos (room_of_free hfree hrecorded hkey)
  · have hother : "a:" ++ a ∉ (s.throttle.keysOf e.address).map Prod.fst := by
      intro hmem
      obtain ⟨key, hkey, hname⟩ := List.mem_map.mp hmem
      rcases AuthFailureThrottle.mem_keysOf.mp hkey with rfl | ⟨-, rfl⟩
      · exact ha (AuthFailureThrottle.append_injective hname)
      · exact AuthFailureThrottle.addressKey_ne_prefixKey _ _ hname.symm
    simpa [ha, (attempted hcalm).get?_of_notMem hother] using hold

theorem Counted.prefix_step (h : s.Counted) (hcalm : s.calm e = true)
    (hrecorded : e.checkedAt ≤ e.recordedAt)
    (hfree : s.throttle.lockedForSeconds e.address e.checkedAt = 0) (net : String) :
    ((s.authorize e).prefixTally net).Agrees ((s.authorize e).throttle.entries.get? ("p:" ++ net))
      (s.throttle.maxFailures * AuthFailureThrottle.prefixLimitFactor) := by
  have hold := h.prefixes net
  have hpos : 0 < s.throttle.maxFailures * AuthFailureThrottle.prefixLimitFactor :=
    Nat.mul_pos s.throttle.maxFailures_pos (by decide)
  rw [prefixTally_authorize]
  by_cases hnet : isIpv6 (normalizeAddress e.address) = true ∧ ipLimiterKey e.address = net
  · obtain ⟨hv6, rfl⟩ := hnet
    have hkey : ("p:" ++ ipLimiterKey e.address,
        s.throttle.maxFailures * AuthFailureThrottle.prefixLimitFactor) ∈ s.throttle.keysOf e.address :=
      AuthFailureThrottle.mem_keysOf.mpr (.inr ⟨hv6, rfl⟩)
    cases attempted hcalm with
    | succeeded correct entries =>
      have hne := (AuthFailureThrottle.addressKey_ne_prefixKey (normalizeAddress e.address)
        (ipLimiterKey e.address)).symm
      simpa [correct, entries, hne] using hold
    | exempted wrong exempt entries => simpa [wrong, exempt, entries] using hold
    | failed wrong counted touched others =>
      simp only [hv6, decide_true, wrong, counted, Bool.not_false, Bool.and_self, if_true, touched _ hkey]
      exact hold.fail hpos (room_of_free hfree hrecorded hkey)
  · have hother : "p:" ++ net ∉ (s.throttle.keysOf e.address).map Prod.fst := by
      intro hmem
      obtain ⟨key, hkey, hname⟩ := List.mem_map.mp hmem
      rcases AuthFailureThrottle.mem_keysOf.mp hkey with rfl | ⟨hv6, rfl⟩
      · exact AuthFailureThrottle.addressKey_ne_prefixKey _ _ hname
      · exact hnet ⟨hv6, AuthFailureThrottle.append_injective hname⟩
    have hskip : (isIpv6 (normalizeAddress e.address) && decide (ipLimiterKey e.address = net)) = false := by
      simpa [Bool.and_eq_true] using hnet
    simpa [hskip, (attempted hcalm).get?_of_notMem hother] using hold

theorem counted_of_reachable (h : system.ReachableUnder (fun s e => s.calm e = true) s) : s.Counted := by
  apply h.invariant (I := Counted)
  · rintro s ⟨o, clock, rfl⟩
    constructor
    · intro a
      exact Tally.Agrees.empty _
    · intro net
      exact Tally.Agrees.empty _
  · intro s e s' ih hcalm hstep
    obtain ⟨-, hrecorded, hfree, rfl⟩ := step_eq hstep
    constructor
    · intro a
      rw [maxFailures_authorize]
      exact ih.address_step hcalm hrecorded hfree a
    · intro net
      rw [maxFailures_authorize]
      exact ih.prefix_step hcalm hrecorded hfree net

/-- Two wrong passwords a minute. -/
def strictOptions : AuthFailureThrottle.Options :=
  { maxFailures := some (.finite 2), windowMs := some (.finite 60000) }

def strict : AuthRun := ⟨.create strictOptions, 0, []⟩

def attempt (address : String) (correct : Bool) (now : ℚ) : AuthAttempt :=
  ⟨some address, correct, ["127.0.0.1"], now, now⟩

end AuthRun
end Arald
