import Arald.Foundations.Runs
import Arald.Store.BoundedFifoMap
import Arald.Web.Addresses

/-!
# The limit on wrong passwords

`AuthFailureThrottle` of `auth-throttle.ts`, and the attempts that `authorize`
of the web UI makes. Wrong passwords are counted for each address and for each
/64 prefix, both in one bounded map whose eviction spares the keys that reached
their limit. The addresses of the machine itself may be exempt.

Times are exact rationals. A log beside the throttle keeps the attempts that
were examined.
-/

namespace Arald

open Foundations

structure AuthEntry where
  count : ℕ
  since : ℚ
  limit : ℕ

namespace AuthEntry

/-- The key has reached its limit, whether or not its window is over. -/
def reached (e : AuthEntry) : Bool := e.limit ≤ e.count

/-- One more failure; without an open window it opens one. -/
def next (windowMs now : ℚ) (limit : ℕ) : Option AuthEntry → AuthEntry
  | none => ⟨1, now, limit⟩
  | some e => if windowMs ≤ now - e.since then ⟨1, now, limit⟩ else { e with count := e.count + 1 }

end AuthEntry

structure AuthFailureThrottle where
  maxFailures : ℕ
  windowMs : ℚ
  exemptLocal : Bool
  entries : BoundedFifoMap String AuthEntry
  maxFailures_pos : 0 < maxFailures
  windowMs_pos : 0 < windowMs
  maxTracked_pos : 0 < entries.maxSize

namespace AuthFailureThrottle

def prefixLimitFactor : ℕ := 5

def defaultMaxFailures : ℚ := 10

def defaultWindowMs : ℚ := 600000

def defaultMaxTracked : ℚ := 1000

theorem one_le_defaultMaxFailures : 1 ≤ defaultMaxFailures := by norm_num [defaultMaxFailures]

theorem one_le_defaultWindowMs : 1 ≤ defaultWindowMs := by norm_num [defaultWindowMs]

theorem one_le_defaultMaxTracked : 1 ≤ defaultMaxTracked := by norm_num [defaultMaxTracked]

/-- An option that is not a finite number of at least one falls back to the default. -/
def positive (v : Option JsNumber) (fallback : {q : ℚ // 1 ≤ q}) : {q : ℚ // 1 ≤ q} :=
  match v with
  | some (.finite q) => if h : 1 ≤ q then ⟨q, h⟩ else fallback
  | _ => fallback

theorem le_floor_positive (v : Option JsNumber) (fallback : {q : ℚ // 1 ≤ q}) :
    (1 : ℤ) ≤ ⌊(positive v fallback).1⌋ :=
  Int.le_floor.mpr (by simpa using (positive v fallback).2)

structure Options where
  maxFailures : Option JsNumber := none
  windowMs : Option JsNumber := none
  maxTracked : Option JsNumber := none
  exemptLocal : Option Bool := none

def create (o : Options) : AuthFailureThrottle where
  maxFailures := ⌊(positive o.maxFailures ⟨defaultMaxFailures, one_le_defaultMaxFailures⟩).1⌋.toNat
  windowMs := (positive o.windowMs ⟨defaultWindowMs, one_le_defaultWindowMs⟩).1
  exemptLocal := o.exemptLocal.getD true
  entries := .empty
    (⌊(positive o.maxTracked ⟨defaultMaxTracked, one_le_defaultMaxTracked⟩).1⌋ : ℤ)
  maxFailures_pos := by
    have hone : (1 : ℤ) ≤
        ⌊(positive o.maxFailures ⟨defaultMaxFailures, one_le_defaultMaxFailures⟩).1⌋ :=
      le_floor_positive _ _
    omega
  windowMs_pos := lt_of_lt_of_le one_pos (positive o.windowMs _).2
  maxTracked_pos := by
    have hone : (1 : ℤ) ≤
        ⌊(positive o.maxTracked ⟨defaultMaxTracked, one_le_defaultMaxTracked⟩).1⌋ :=
      le_floor_positive _ _
    exact WithTop.coe_lt_coe.mpr (by omega)

/-- Whoever reached its limit is evicted last. -/
def evictionScore : BoundedFifoMap.EvictionScore String AuthEntry :=
  fun _ e => ((if e.reached then 1 else 0 : ℤ) : WithTop ℤ)

/-- The keys of an address with their limits: the whole address and, for IPv6, the /64 prefix. -/
def keys (maxFailures : ℕ) (address : Option String) : List (String × ℕ) :=
  let full := normalizeAddress address
  ("a:" ++ full, maxFailures) ::
    if isIpv6 full then [("p:" ++ ipLimiterKey address, maxFailures * prefixLimitFactor)] else []

def keysOf (t : AuthFailureThrottle) (address : Option String) : List (String × ℕ) :=
  keys t.maxFailures address

/-- How long a key is locked, in seconds. -/
def keyLockedForSeconds (t : AuthFailureThrottle) (now : ℚ) (key : String × ℕ) : ℤ :=
  match t.entries.get? key.1 with
  | none => 0
  | some e =>
    if e.count < key.2 then 0
    else
      let left := e.since + t.windowMs - now
      if 0 < left then ⌈left / 1000⌉ else 0

/-- The seconds that an address has to wait, 0 if it is not locked. -/
def lockedForSeconds (t : AuthFailureThrottle) (address : Option String) (now : ℚ) : ℤ :=
  (t.keysOf address).foldl (fun wait key => max wait (t.keyLockedForSeconds now key)) 0

/-- Write the entry of a key. -/
def track (t : AuthFailureThrottle) (key : String) (e : AuthEntry) : AuthFailureThrottle :=
  { t with
    entries := t.entries.set (some evictionScore) key e
    maxTracked_pos := by simpa using t.maxTracked_pos }

/-- Count a failure for one key. -/
def recordKey (t : AuthFailureThrottle) (now : ℚ) (key : String × ℕ) : AuthFailureThrottle :=
  t.track key.1 (AuthEntry.next t.windowMs now key.2 (t.entries.get? key.1))

/-- `isThisMachine`, given the addresses of the machine at that moment. -/
def isThisMachine (address : Option String) (localAddresses : List String) : Bool :=
  address.isSome && localAddresses.contains (normalizeAddress address)

def isLocal (t : AuthFailureThrottle) (address : Option String) (localAddresses : List String) : Bool :=
  t.exemptLocal && isThisMachine address localAddresses

/-- A password was presented and is wrong. -/
def recordFailure (t : AuthFailureThrottle) (address : Option String) (localAddresses : List String)
    (now : ℚ) : AuthFailureThrottle :=
  if t.isLocal address localAddresses then t
  else (t.keysOf address).foldl (fun t key => t.recordKey now key) t

/-- The right password: the address starts from zero again, its /64 prefix does not. -/
def recordSuccess (t : AuthFailureThrottle) (address : Option String) : AuthFailureThrottle :=
  { t with
    entries := t.entries.delete ("a:" ++ normalizeAddress address)
    maxTracked_pos := by simpa using t.maxTracked_pos }

/-! ### Entries after a failure -/

@[simp] theorem entries_recordSuccess (t : AuthFailureThrottle) (address : Option String) :
    (t.recordSuccess address).entries = t.entries.delete ("a:" ++ normalizeAddress address) := rfl

@[simp] theorem maxFailures_recordSuccess (t : AuthFailureThrottle) (address : Option String) :
    (t.recordSuccess address).maxFailures = t.maxFailures := rfl

@[simp] theorem windowMs_recordSuccess (t : AuthFailureThrottle) (address : Option String) :
    (t.recordSuccess address).windowMs = t.windowMs := rfl

@[simp] theorem maxFailures_recordKey (t : AuthFailureThrottle) (now : ℚ) (key : String × ℕ) :
    (t.recordKey now key).maxFailures = t.maxFailures := rfl

@[simp] theorem windowMs_recordKey (t : AuthFailureThrottle) (now : ℚ) (key : String × ℕ) :
    (t.recordKey now key).windowMs = t.windowMs := rfl

/-- The keys that a failure counts for: the map has to make no room for any of them. -/
def evictsNone (now : ℚ) : AuthFailureThrottle → List (String × ℕ) → Bool
  | _, [] => true
  | t, key :: rest =>
    (t.entries.victim? (some evictionScore) key.1).isNone && evictsNone now (t.recordKey now key) rest

section
variable {t : AuthFailureThrottle} {now : ℚ}

theorem get?_recordKey_self (key : String × ℕ) :
    (t.recordKey now key).entries.get? key.1 =
      some (AuthEntry.next t.windowMs now key.2 (t.entries.get? key.1)) :=
  BoundedFifoMap.get?_set_self _ _ _ t.maxTracked_pos

/-- A failure that evicts nothing touches its own key only. -/
theorem get?_recordKey_of_ne {key : String × ℕ} {k : String}
    (hroom : t.entries.victim? (some evictionScore) key.1 = none) (hk : k ≠ key.1) :
    (t.recordKey now key).entries.get? k = t.entries.get? k := by
  rcases t.entries.set_cases (some evictionScore) key.1
      (AuthEntry.next t.windowMs now key.2 (t.entries.get? key.1)) with
    ⟨hmax, -⟩ | ⟨-, hfits, -⟩ | ⟨-, -, -, victim, -, hvictim, -⟩
  · exact absurd hmax (not_le.mpr t.maxTracked_pos)
  · have hset : (t.recordKey now key).entries.get? k = if k = key.1 then _ else t.entries.get? k :=
      BoundedFifoMap.get?_set_of_room t.maxTracked_pos hfits k
    rw [if_neg hk] at hset
    exact hset
  · rw [hroom] at hvictim
    cases hvictim

theorem get?_recordKeys_of_notMem {keys : List (String × ℕ)} {k : String}
    (hcalm : evictsNone now t keys = true) (hk : k ∉ keys.map Prod.fst) :
    (keys.foldl (fun t key => t.recordKey now key) t).entries.get? k = t.entries.get? k := by
  induction keys generalizing t with
  | nil => rfl
  | cons key rest ih =>
    rw [evictsNone, Bool.and_eq_true, Option.isNone_iff_eq_none] at hcalm
    rw [List.map_cons, List.mem_cons, not_or] at hk
    rw [List.foldl_cons, ih hcalm.2 hk.2, get?_recordKey_of_ne hcalm.1 hk.1]

theorem windowMs_recordKeys (keys : List (String × ℕ)) :
    (keys.foldl (fun t key => t.recordKey now key) t).windowMs = t.windowMs := by
  induction keys generalizing t with
  | nil => rfl
  | cons key rest ih => rw [List.foldl_cons, ih, windowMs_recordKey]

theorem maxFailures_recordKeys (keys : List (String × ℕ)) :
    (keys.foldl (fun t key => t.recordKey now key) t).maxFailures = t.maxFailures := by
  induction keys generalizing t with
  | nil => rfl
  | cons key rest ih => rw [List.foldl_cons, ih, maxFailures_recordKey]

theorem get?_recordKeys_of_mem {keys : List (String × ℕ)} {key : String × ℕ}
    (hcalm : evictsNone now t keys = true) (hnodup : (keys.map Prod.fst).Nodup) (hkey : key ∈ keys) :
    (keys.foldl (fun t key => t.recordKey now key) t).entries.get? key.1 =
      some (AuthEntry.next t.windowMs now key.2 (t.entries.get? key.1)) := by
  induction keys generalizing t with
  | nil => cases hkey
  | cons first rest ih =>
    rw [evictsNone, Bool.and_eq_true, Option.isNone_iff_eq_none] at hcalm
    rw [List.map_cons, List.nodup_cons] at hnodup
    rw [List.foldl_cons]
    rcases List.mem_cons.mp hkey with rfl | hrest
    · rw [get?_recordKeys_of_notMem hcalm.2 hnodup.1, get?_recordKey_self]
    · have hne : key.1 ≠ first.1 := by
        intro heq
        exact hnodup.1 (heq ▸ List.mem_map_of_mem hrest)
      rw [ih hcalm.2 hnodup.2 hrest, windowMs_recordKey, get?_recordKey_of_ne hcalm.1 hne]

/-! ### Keys -/

theorem addressKey_ne_prefixKey (a b : String) : "a:" ++ a ≠ "p:" ++ b := by
  intro h
  have hlist := congrArg String.toList h
  simp at hlist

theorem append_injective {kind a b : String} (h : kind ++ a = kind ++ b) : a = b := by
  have hlist := congrArg String.toList h
  rw [String.toList_append, String.toList_append, List.append_cancel_left_eq] at hlist
  exact String.toList_inj.mp hlist

theorem mem_keysOf {address : Option String} {key : String × ℕ} :
    key ∈ t.keysOf address ↔ key = ("a:" ++ normalizeAddress address, t.maxFailures) ∨
      (isIpv6 (normalizeAddress address) = true ∧
        key = ("p:" ++ ipLimiterKey address, t.maxFailures * prefixLimitFactor)) := by
  unfold keysOf keys
  by_cases h : isIpv6 (normalizeAddress address) = true <;> simp [h]

theorem nodup_keysOf (address : Option String) : ((t.keysOf address).map Prod.fst).Nodup := by
  unfold keysOf keys
  by_cases h : isIpv6 (normalizeAddress address) = true
  · simp [h, addressKey_ne_prefixKey]
  · simp [h]

/-- The limit of a key is the same for every address that has it. -/
theorem eq_of_mem_keysOf {a b : Option String} {key key' : String × ℕ} (ha : key ∈ t.keysOf a)
    (hb : key' ∈ t.keysOf b) (h : key.1 = key'.1) : key = key' := by
  rcases mem_keysOf.mp ha with rfl | ⟨-, rfl⟩ <;> rcases mem_keysOf.mp hb with rfl | ⟨-, rfl⟩
  · exact Prod.ext h rfl
  · exact absurd h (addressKey_ne_prefixKey _ _)
  · exact absurd h.symm (addressKey_ne_prefixKey _ _)
  · exact Prod.ext h rfl

/-- Addresses of different networks have no key in common. -/
theorem disjoint_keysOf {a b : Option String} (h : ipLimiterKey a ≠ ipLimiterKey b)
    {key : String × ℕ} (ha : key ∈ t.keysOf a) : key.1 ∉ (t.keysOf b).map Prod.fst := by
  intro hmem
  obtain ⟨key', hb, hkey⟩ := List.mem_map.mp hmem
  have hsame := eq_of_mem_keysOf hb ha hkey
  subst hsame
  rcases mem_keysOf.mp ha with rfl | ⟨-, rfl⟩ <;> rcases mem_keysOf.mp hb with hb | ⟨-, hb⟩
  · have hfull := append_injective (congrArg Prod.fst hb)
    exact h (by rw [ipLimiterKey, ipLimiterKey, hfull])
  · exact addressKey_ne_prefixKey _ _ (congrArg Prod.fst hb)
  · exact addressKey_ne_prefixKey _ _ (congrArg Prod.fst hb).symm
  · exact h (append_injective (congrArg Prod.fst hb))

/-! ### Locks -/

theorem keyLockedForSeconds_nonneg (key : String × ℕ) : 0 ≤ t.keyLockedForSeconds now key := by
  unfold keyLockedForSeconds
  split
  · exact le_rfl
  · dsimp only
    split_ifs with hcount hleft
    · exact le_rfl
    · exact Int.ceil_nonneg (div_pos hleft (by norm_num)).le
    · exact le_rfl

/-- A key is locked when it reached its limit in a window that is not over. -/
theorem keyLockedForSeconds_pos {key : String × ℕ} :
    0 < t.keyLockedForSeconds now key ↔
      ∃ e, t.entries.get? key.1 = some e ∧ key.2 ≤ e.count ∧ now < e.since + t.windowMs := by
  unfold keyLockedForSeconds
  cases hget : t.entries.get? key.1 with
  | none => simp
  | some e =>
    dsimp only
    split_ifs with hcount hleft
    · simp [hcount]
    · have hceil : 0 < ⌈(e.since + t.windowMs - now) / 1000⌉ :=
        Int.ceil_pos.mpr (div_pos hleft (by norm_num))
      simp only [hceil, Option.some.injEq, exists_eq_left', true_iff]
      exact ⟨not_lt.mp hcount, sub_pos.mp hleft⟩
    · simp only [lt_self_iff_false, Option.some.injEq, exists_eq_left', false_iff, not_and]
      intro _ hopen
      exact hleft (sub_pos.mpr hopen)

theorem foldl_max_le_iff (wait bound : ℤ) (keys : List (String × ℕ)) :
    keys.foldl (fun wait key => max wait (t.keyLockedForSeconds now key)) wait ≤ bound ↔
      wait ≤ bound ∧ ∀ key ∈ keys, t.keyLockedForSeconds now key ≤ bound := by
  induction keys generalizing wait with
  | nil => simp
  | cons key rest ih =>
    rw [List.foldl_cons, ih, max_le_iff, List.forall_mem_cons]
    tauto

theorem lockedForSeconds_le_iff {address : Option String} {bound : ℤ} :
    t.lockedForSeconds address now ≤ bound ↔
      0 ≤ bound ∧ ∀ key ∈ t.keysOf address, t.keyLockedForSeconds now key ≤ bound :=
  foldl_max_le_iff 0 bound _

theorem lockedForSeconds_nonneg (address : Option String) : 0 ≤ t.lockedForSeconds address now := by
  by_contra h
  have hle : t.lockedForSeconds address now ≤ -1 := by omega
  exact absurd (lockedForSeconds_le_iff.mp hle).1 (by norm_num)

theorem keyLockedForSeconds_le {address : Option String} {key : String × ℕ}
    (hkey : key ∈ t.keysOf address) : t.keyLockedForSeconds now key ≤ t.lockedForSeconds address now :=
  (lockedForSeconds_le_iff.mp le_rfl).2 key hkey

end

/-! ### Evictions -/

/-- A key that reached its limit is evicted only when every tracked key did. -/
theorem reached_of_evicted {t : AuthFailureThrottle} {now : ℚ} {key : String × ℕ} {k : String}
    {e : AuthEntry} (hget : t.entries.get? k = some e) (hreached : e.reached = true)
    (hgone : (t.recordKey now key).entries.get? k = none) :
    ∀ k' e', t.entries.get? k' = some e' → e'.reached = true := by
  have hvictim : t.entries.victim? (some evictionScore) key.1 = some k := by
    by_contra hother
    have hk : k ≠ key.1 := by
      rintro rfl
      rw [get?_recordKey_self] at hgone
      cases hgone
    have hkept : (t.recordKey now key).entries.get? k = some e :=
      BoundedFifoMap.get?_set_of_survives t.maxTracked_pos hk hget (.inr (.inr hother))
    exact absurd (hkept.symm.trans hgone) (by simp)
  have hone : ∀ x : AuthEntry, evictionScore k e ≤ evictionScore k x → x.reached = true := by
    intro x hle
    by_contra hnot
    simp only [evictionScore, hreached, if_true, eq_false_of_ne_true hnot] at hle
    exact absurd (WithTop.coe_le_coe.mp hle) (by norm_num)
  intro k' e' hget'
  have hmem := BoundedFifoMap.get?_eq_some.mp hget'
  exact hone e' (BoundedFifoMap.score_victim_le (fun e _ => WithTop.coe_lt_top _) hvictim hget _ hmem)

end AuthFailureThrottle

/-! ### Attempts -/

/-- A presented password; the clock is read before and after it is compared. -/
structure AuthAttempt where
  address : Option String
  correct : Bool
  localAddresses : List String
  checkedAt : ℚ
  recordedAt : ℚ

/-- What is remembered of an examined attempt. -/
structure ExaminedAttempt where
  address : Option String
  correct : Bool
  /-- The address was the machine's own, and exempt. -/
  exempt : Bool
  time : ℚ

structure AuthRun where
  throttle : AuthFailureThrottle
  clock : ℚ
  examined : List ExaminedAttempt

namespace AuthRun

def authorize (s : AuthRun) (e : AuthAttempt) : AuthRun where
  throttle :=
    if e.correct then s.throttle.recordSuccess e.address
    else s.throttle.recordFailure e.address e.localAddresses e.recordedAt
  clock := e.recordedAt
  examined := s.examined ++
    [⟨e.address, e.correct, s.throttle.isLocal e.address e.localAddresses, e.recordedAt⟩]

/-- Attempts at times that do not decrease, each made only while the address is not locked. -/
def system : System AuthRun AuthAttempt where
  Init s := ∃ o clock, s = ⟨.create o, clock, []⟩
  step s e :=
    if s.clock ≤ e.checkedAt ∧ e.checkedAt ≤ e.recordedAt ∧
        s.throttle.lockedForSeconds e.address e.checkedAt = 0 then
      some (s.authorize e)
    else none

end AuthRun
end Arald
