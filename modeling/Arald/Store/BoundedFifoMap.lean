import Arald.Foundations.JsValue
import Arald.Foundations.OrderedMap

/-!
# The bounded map behind every store fed by the network

`BoundedFifoMap` of `bounded-map.ts`. The option `maxSize` is an integer or
`Infinity`; the size bound is a field, so a map above its bound cannot be
built. An eviction score is an integer or `Infinity` and is evaluated when the
eviction happens, hence it is an argument of `set`: the callers' score
functions read state (the live trust of a node id) that changes after an entry
was recorded.
-/

namespace Arald

open Foundations

/-- A map that never holds more than `maxSize` entries. -/
structure BoundedFifoMap (κ : Type*) (α : Type*) where
  maxSize : WithTop ℤ
  map : OrderedMap κ α
  bounded : (((map.size : ℕ) : ℤ) : WithTop ℤ) ≤ max 0 maxSize

namespace BoundedFifoMap

variable {κ α : Type*}

def empty (maxSize : WithTop ℤ) : BoundedFifoMap κ α where
  maxSize := maxSize
  map := OrderedMap.empty
  bounded := by simp

def size (m : BoundedFifoMap κ α) : ℕ := m.map.size

def keys (m : BoundedFifoMap κ α) : List κ := m.map.keys

def values (m : BoundedFifoMap κ α) : List α := m.map.values

def entries (m : BoundedFifoMap κ α) : List (κ × α) := m.map.entries

/-- The eviction score given to the constructor, read in the current state. -/
abbrev EvictionScore (κ α : Type*) := κ → α → WithTop ℤ

/-- The scan of `pickEvictionCandidate`: the first entry with the lowest score
strictly below the starting value. -/
def lowestScored (score : EvictionScore κ α) : Option κ → WithTop ℤ → List (κ × α) → Option κ
  | bestKey, _, [] => bestKey
  | bestKey, bestScore, (key, value) :: rest =>
    if score key value < bestScore then lowestScored score (some key) (score key value) rest
    else lowestScored score bestKey bestScore rest

def pickEvictionCandidate (m : BoundedFifoMap κ α) (evictionScore : Option (EvictionScore κ α)) :
    Option κ :=
  match evictionScore with
  | none => m.map.oldest?
  | some score => (lowestScored score none ⊤ m.map.entries).or m.map.oldest?

theorem lowestScored_mem (score : EvictionScore κ α) (best : Option κ) (bound : WithTop ℤ)
    (l : List (κ × α)) (k : κ) (h : lowestScored score best bound l = some k) :
    best = some k ∨ k ∈ l.map Prod.fst := by
  induction l generalizing best bound with
  | nil => exact .inl h
  | cons e rest ih =>
    obtain ⟨key, value⟩ := e
    rw [lowestScored] at h
    split_ifs at h
    · rcases ih _ _ h with hk | hk
      · exact .inr (by simp [Option.some_inj.mp hk])
      · exact .inr (List.mem_cons_of_mem _ hk)
    · exact (ih _ _ h).imp_right (List.mem_cons_of_mem _)

/-- The scan returns the first entry with the lowest score, if any entry scores
below the starting value. -/
theorem lowestScored_first {score : EvictionScore κ α} {best : Option κ} {bound : WithTop ℤ}
    {l : List (κ × α)} {k : κ} (h : lowestScored score best bound l = some k) :
    (best = some k ∧ ∀ e ∈ l, bound ≤ score e.1 e.2) ∨
      ∃ l₁ v l₂, l = l₁ ++ (k, v) :: l₂ ∧ score k v < bound ∧
        (∀ e ∈ l₁, score k v < score e.1 e.2) ∧ ∀ e ∈ l₂, score k v ≤ score e.1 e.2 := by
  induction l generalizing best bound with
  | nil => exact .inl ⟨h, by simp⟩
  | cons e rest ih =>
    obtain ⟨key, value⟩ := e
    rw [lowestScored] at h
    split_ifs at h with hlt
    · rcases ih h with ⟨hkey, hrest⟩ | ⟨l₁, v, l₂, hl, hv, hbefore, hafter⟩
      · obtain rfl : key = k := by simpa using hkey
        exact .inr ⟨[], value, rest, rfl, hlt, by simp, hrest⟩
      · refine .inr ⟨(key, value) :: l₁, v, l₂, by simp [hl], hv.trans hlt, ?_, hafter⟩
        intro e he
        rcases List.mem_cons.mp he with rfl | hold
        · exact hv
        · exact hbefore e hold
    · rcases ih h with ⟨hkey, hrest⟩ | ⟨l₁, v, l₂, hl, hv, hbefore, hafter⟩
      · refine .inl ⟨hkey, ?_⟩
        intro e he
        rcases List.mem_cons.mp he with rfl | hold
        · exact not_lt.mp hlt
        · exact hrest e hold
      · refine .inr ⟨(key, value) :: l₁, v, l₂, by simp [hl], hv, ?_, hafter⟩
        intro e he
        rcases List.mem_cons.mp he with rfl | hold
        · exact hv.trans_le (not_lt.mp hlt)
        · exact hbefore e hold

theorem lowestScored_eq_none {score : EvictionScore κ α} {best : Option κ} {bound : WithTop ℤ}
    {l : List (κ × α)} (h : lowestScored score best bound l = none) :
    best = none ∧ ∀ e ∈ l, bound ≤ score e.1 e.2 := by
  induction l generalizing best bound with
  | nil => exact ⟨h, by simp⟩
  | cons e rest ih =>
    obtain ⟨key, value⟩ := e
    rw [lowestScored] at h
    split_ifs at h with hlt
    · simpa using (ih h).1
    · obtain ⟨hbest, hrest⟩ := ih h
      refine ⟨hbest, ?_⟩
      intro e he
      rcases List.mem_cons.mp he with rfl | hold
      · exact not_lt.mp hlt
      · exact hrest e hold

/-- When every score is finite, the victim is the oldest of the entries with the
lowest score. -/
theorem pickEvictionCandidate_first {m : BoundedFifoMap κ α} {score : EvictionScore κ α} {k : κ}
    (hfinite : ∀ e ∈ m.entries, score e.1 e.2 < ⊤)
    (h : m.pickEvictionCandidate (some score) = some k) :
    ∃ l₁ v l₂, m.entries = l₁ ++ (k, v) :: l₂ ∧
      (∀ e ∈ l₁, score k v < score e.1 e.2) ∧ ∀ e ∈ l₂, score k v ≤ score e.1 e.2 := by
  rcases Option.or_eq_some_iff.mp h with hscan | ⟨hnone, hold⟩
  · rcases lowestScored_first hscan with ⟨hbest, -⟩ | ⟨l₁, v, l₂, hl, -, hbefore, hafter⟩
    · cases hbest
    · exact ⟨l₁, v, l₂, hl, hbefore, hafter⟩
  · obtain ⟨v, hv⟩ := OrderedMap.mem_keys.mp (OrderedMap.mem_keys_of_oldest? hold)
    have hle := (lowestScored_eq_none hnone).2 (k, v) hv
    exact absurd (hfinite (k, v) hv) (not_lt.mpr hle)

theorem pickEvictionCandidate_mem {m : BoundedFifoMap κ α}
    {evictionScore : Option (EvictionScore κ α)} {k : κ}
    (h : m.pickEvictionCandidate evictionScore = some k) : k ∈ m.keys := by
  cases evictionScore with
  | none => exact OrderedMap.mem_keys_of_oldest? h
  | some score =>
    rcases Option.or_eq_some_iff.mp h with hscan | ⟨-, hold⟩
    · exact (lowestScored_mem score none ⊤ m.map.entries k hscan).resolve_left (by simp)
    · exact OrderedMap.mem_keys_of_oldest? hold

/-- Without a score, or when every entry scores `Infinity`, there is still the
oldest entry: a non-empty map always has a victim. -/
theorem pickEvictionCandidate_isSome {m : BoundedFifoMap κ α}
    (evictionScore : Option (EvictionScore κ α)) (h : m.size ≠ 0) :
    ∃ k, m.pickEvictionCandidate evictionScore = some k := by
  have hold : m.map.oldest? ≠ none := fun hnone => h (OrderedMap.oldest?_eq_none.mp hnone)
  obtain ⟨k, hk⟩ := Option.ne_none_iff_exists'.mp hold
  cases evictionScore with
  | none => exact ⟨k, hk⟩
  | some score =>
    cases hscan : lowestScored score none ⊤ m.map.entries with
    | none => exact ⟨k, by simp [pickEvictionCandidate, hscan, hk]⟩
    | some k' => exact ⟨k', by simp [pickEvictionCandidate, hscan]⟩

/-- Deleting every entry that fails a test, as the iterating `delete` loops do. -/
def filter (m : BoundedFifoMap κ α) (p : κ → α → Bool) : BoundedFifoMap κ α where
  maxSize := m.maxSize
  map := m.map.filter p
  bounded := le_trans (by exact_mod_cast m.map.size_filter_le p) m.bounded

@[simp] theorem maxSize_filter (m : BoundedFifoMap κ α) (p : κ → α → Bool) :
    (m.filter p).maxSize = m.maxSize := rfl

theorem size_filter_le (m : BoundedFifoMap κ α) (p : κ → α → Bool) :
    (m.filter p).size ≤ m.size := m.map.size_filter_le p

theorem mem_entries_filter {m : BoundedFifoMap κ α} {p : κ → α → Bool} {e : κ × α} :
    e ∈ (m.filter p).entries ↔ e ∈ m.entries ∧ p e.1 e.2 = true :=
  OrderedMap.mem_filter

variable [DecidableEq κ]

def has (m : BoundedFifoMap κ α) (key : κ) : Bool := m.map.has key

def get? (m : BoundedFifoMap κ α) (key : κ) : Option α := m.map.get? key

theorem has_iff {m : BoundedFifoMap κ α} {key : κ} : m.has key = true ↔ key ∈ m.keys :=
  OrderedMap.has_iff

theorem get?_eq_none {m : BoundedFifoMap κ α} {key : κ} : m.get? key = none ↔ key ∉ m.keys :=
  OrderedMap.get?_eq_none

theorem get?_eq_some {m : BoundedFifoMap κ α} {key : κ} {value : α} :
    m.get? key = some value ↔ (key, value) ∈ m.entries :=
  OrderedMap.get?_eq_some

/-- A map in which something is found has room. -/
theorem maxSize_pos_of_get? {m : BoundedFifoMap κ α} {key : κ} {value : α}
    (h : m.get? key = some value) : 0 < m.maxSize := by
  by_contra hle
  have hbound := m.bounded
  rw [max_eq_left (not_lt.mp hle)] at hbound
  have hsize : (m.map.size : ℤ) ≤ 0 := WithTop.coe_le_coe.mp hbound
  have hzero : m.map.size = 0 := by omega
  have hnil : m.map.entries = [] := List.length_eq_zero_iff.mp hzero
  have hmem := OrderedMap.get?_eq_some.mp h
  simp [hnil] at hmem

@[simp] theorem get?_empty (maxSize : WithTop ℤ) (key : κ) :
    (empty maxSize : BoundedFifoMap κ α).get? key = none := rfl

def delete (m : BoundedFifoMap κ α) (key : κ) : BoundedFifoMap κ α := m.filter fun k _ => k ≠ key

@[simp] theorem maxSize_delete (m : BoundedFifoMap κ α) (key : κ) :
    (m.delete key).maxSize = m.maxSize := rfl

theorem get?_filter (m : BoundedFifoMap κ α) (p : κ → α → Bool) (key : κ) :
    (m.filter p).get? key = (m.get? key).filter (p key) :=
  OrderedMap.get?_filter m.map p key

theorem get?_delete (m : BoundedFifoMap κ α) (key k : κ) :
    (m.delete key).get? k = if k = key then none else m.get? k :=
  OrderedMap.get?_delete m.map key k

/-- `set` refuses everything when `maxSize` is not positive. -/
def refuses (m : BoundedFifoMap κ α) : Bool := m.maxSize ≤ 0

/-- A new key does not fit without an eviction. -/
def full (m : BoundedFifoMap κ α) : Bool := m.maxSize ≤ (((m.size : ℕ) : ℤ) : WithTop ℤ)

/-- The key that `set` evicts to make room for `key`. -/
def victim? (m : BoundedFifoMap κ α) (evictionScore : Option (EvictionScore κ α)) (key : κ) :
    Option κ :=
  if !m.has key && m.full then m.pickEvictionCandidate evictionScore else none

/-- The map after the eviction that precedes an insertion of `key`. -/
def makeRoom (m : BoundedFifoMap κ α) (evictionScore : Option (EvictionScore κ α)) (key : κ) :
    BoundedFifoMap κ α :=
  match m.victim? evictionScore key with
  | some victim => m.delete victim
  | none => m

theorem size_makeRoom_lt {m : BoundedFifoMap κ α} (evictionScore : Option (EvictionScore κ α))
    {key : κ} (hpos : 0 < m.maxSize) (hnew : key ∉ m.keys) :
    ((((m.makeRoom evictionScore key).size : ℕ) : ℤ) : WithTop ℤ) < m.maxSize := by
  have hhas : m.has key = false := by
    simpa [Bool.eq_false_iff, has_iff] using hnew
  by_cases hfull : m.full = true
  · have hsize : m.size ≠ 0 := by
      intro h0
      have hle : m.maxSize ≤ 0 := by simpa [full, h0] using hfull
      exact absurd hle (not_le.mpr hpos)
    obtain ⟨k, hk⟩ := m.pickEvictionCandidate_isSome evictionScore hsize
    have hdel : (m.delete k).size + 1 = m.size :=
      OrderedMap.size_delete_of_mem (pickEvictionCandidate_mem hk)
    have hroom : m.makeRoom evictionScore key = m.delete k := by
      simp [makeRoom, victim?, hhas, hfull, hk]
    have hle : (((m.size : ℕ) : ℤ) : WithTop ℤ) ≤ m.maxSize := by
      simpa [max_eq_right hpos.le, size] using m.bounded
    rw [hroom]
    refine lt_of_lt_of_le ?_ hle
    exact_mod_cast Nat.lt_of_succ_le hdel.le
  · have hroom : m.makeRoom evictionScore key = m := by
      simp [makeRoom, victim?, hfull]
    rw [hroom]
    simpa [full] using hfull

theorem keys_makeRoom_subset (m : BoundedFifoMap κ α)
    (evictionScore : Option (EvictionScore κ α)) (key : κ) :
    ∀ k ∈ (m.makeRoom evictionScore key).keys, k ∈ m.keys := by
  intro k hk
  rw [makeRoom] at hk
  split at hk
  · exact (OrderedMap.mem_keys_delete.mp hk).1
  · exact hk

theorem makeRoom_of_mem {m : BoundedFifoMap κ α} {evictionScore : Option (EvictionScore κ α)}
    {key : κ} (h : key ∈ m.keys) : m.makeRoom evictionScore key = m := by
  simp [makeRoom, victim?, has_iff.mpr h]

@[simp] theorem maxSize_makeRoom (m : BoundedFifoMap κ α)
    (evictionScore : Option (EvictionScore κ α)) (key : κ) :
    (m.makeRoom evictionScore key).maxSize = m.maxSize := by
  rw [makeRoom]
  split <;> rfl

theorem succ_cast_le_of_lt {n : ℕ} {bound : WithTop ℤ}
    (h : (((n : ℕ) : ℤ) : WithTop ℤ) < bound) : (((n + 1 : ℕ) : ℤ) : WithTop ℤ) ≤ bound := by
  cases bound with
  | top => exact le_top
  | coe b =>
    have hb : (n : ℤ) < b := WithTop.coe_lt_coe.mp h
    exact WithTop.coe_le_coe.mpr (by push_cast; omega)

/-- Insert or overwrite, evicting one entry when a new key meets a full map. -/
def set (m : BoundedFifoMap κ α) (evictionScore : Option (EvictionScore κ α)) (key : κ)
    (value : α) : BoundedFifoMap κ α :=
  if h : m.maxSize ≤ 0 then m
  else
    { maxSize := m.maxSize
      map := (m.makeRoom evictionScore key).map.set key value
      bounded := by
        have hpos : 0 < m.maxSize := not_le.mp h
        rw [max_eq_right hpos.le]
        by_cases hmem : key ∈ m.keys
        · rw [makeRoom_of_mem hmem, OrderedMap.size_set_of_mem value hmem]
          simpa [max_eq_right hpos.le] using m.bounded
        · have hnew : key ∉ (m.makeRoom evictionScore key).map.keys := fun hk =>
            hmem (m.keys_makeRoom_subset evictionScore key key hk)
          rw [OrderedMap.size_set_of_notMem value hnew]
          have hlt := size_makeRoom_lt evictionScore hpos hmem
          exact succ_cast_le_of_lt hlt }

@[simp] theorem maxSize_set (m : BoundedFifoMap κ α)
    (evictionScore : Option (EvictionScore κ α)) (key : κ) (value : α) :
    (m.set evictionScore key value).maxSize = m.maxSize := by
  rw [set]
  split <;> rfl

/-- What one `set` can do: nothing, an insertion that needs no room, or an
insertion that costs exactly one other key its entry. -/
theorem set_cases (m : BoundedFifoMap κ α) (evictionScore : Option (EvictionScore κ α))
    (key : κ) (value : α) :
    (m.maxSize ≤ 0 ∧ m.set evictionScore key value = m) ∨
    (0 < m.maxSize ∧ (key ∈ m.keys ∨ m.full = false) ∧
      (m.set evictionScore key value).map = m.map.set key value) ∨
    (0 < m.maxSize ∧ key ∉ m.keys ∧ m.full = true ∧ ∃ victim ∈ m.keys,
      m.victim? evictionScore key = some victim ∧
      (m.set evictionScore key value).map = (m.map.delete victim).set key value) := by
  by_cases hmax : m.maxSize ≤ 0
  · exact .inl ⟨hmax, by simp [set, hmax]⟩
  have hpos : 0 < m.maxSize := not_le.mp hmax
  have hset : (m.set evictionScore key value).map =
      (m.makeRoom evictionScore key).map.set key value := by
    simp [set, hmax]
  cases hvictim : m.victim? evictionScore key with
  | none =>
    refine .inr (.inl ⟨hpos, ?_, by rw [hset, makeRoom, hvictim]⟩)
    by_contra hno
    obtain ⟨hnew, hfull⟩ : key ∉ m.keys ∧ m.full = true := by simpa using hno
    have hsize : m.size ≠ 0 := by
      intro h0
      exact absurd (by simpa [full, h0] using hfull) hmax
    obtain ⟨k, hk⟩ := m.pickEvictionCandidate_isSome evictionScore hsize
    have hhas : m.has key = false := by simpa [Bool.eq_false_iff, has_iff] using hnew
    simp [victim?, hhas, hfull, hk] at hvictim
  | some victim =>
    have hcond : (!m.has key && m.full) = true := by
      by_contra hno
      simp [victim?, hno] at hvictim
    obtain ⟨hhas, hfull⟩ : m.has key = false ∧ m.full = true := by simpa using hcond
    have hnew : key ∉ m.keys := by simpa [Bool.eq_false_iff, has_iff] using hhas
    have hpick : m.pickEvictionCandidate evictionScore = some victim := by
      simpa [victim?, hhas, hfull] using hvictim
    exact .inr (.inr ⟨hpos, hnew, hfull, victim, pickEvictionCandidate_mem hpick, rfl,
      by rw [hset, makeRoom, hvictim]; rfl⟩)

theorem get?_set_self {m : BoundedFifoMap κ α} (evictionScore : Option (EvictionScore κ α))
    (key : κ) (value : α) (hpos : 0 < m.maxSize) :
    (m.set evictionScore key value).get? key = some value := by
  simp [set, not_le.mpr hpos, get?]

/-- A `set` that needs no room changes its own key only. -/
theorem get?_set_of_room {m : BoundedFifoMap κ α} {evictionScore : Option (EvictionScore κ α)}
    {key : κ} {value : α} (hpos : 0 < m.maxSize) (hroom : key ∈ m.keys ∨ m.full = false) (k : κ) :
    (m.set evictionScore key value).get? k = if k = key then some value else m.get? k := by
  rcases m.set_cases evictionScore key value with ⟨hmax, -⟩ | ⟨-, -, hmap⟩ | ⟨-, hnew, hfull, -⟩
  · exact absurd hmax (not_le.mpr hpos)
  · rw [get?, hmap, OrderedMap.get?_set]
    rfl
  · rcases hroom with h | h
    · exact absurd h hnew
    · simp [h] at hfull

theorem has_set_of_room {m : BoundedFifoMap κ α} {evictionScore : Option (EvictionScore κ α)}
    {key : κ} {value : α} (hpos : 0 < m.maxSize) (hroom : key ∈ m.keys ∨ m.full = false) (k : κ) :
    (m.set evictionScore key value).has k = true ↔ m.has k = true ∨ k = key := by
  change ((m.set evictionScore key value).get? k).isSome = true ↔ (m.get? k).isSome = true ∨ k = key
  rw [get?_set_of_room hpos hroom]
  split_ifs with hk <;> simp [hk]

/-- Another key keeps its value through a `set` that does not evict it. -/
theorem get?_set_of_survives {m : BoundedFifoMap κ α} {evictionScore : Option (EvictionScore κ α)}
    {key k : κ} {value v : α} (hpos : 0 < m.maxSize) (hk : k ≠ key) (h : m.get? k = some v)
    (hroom : key ∈ m.keys ∨ m.full = false ∨ m.victim? evictionScore key ≠ some k) :
    (m.set evictionScore key value).get? k = some v := by
  rcases m.set_cases evictionScore key value with
    ⟨hmax, -⟩ | ⟨-, -, hmap⟩ | ⟨-, hnew, hfull, victim, -, hvictim, hmap⟩
  · exact absurd hmax (not_le.mpr hpos)
  · rw [get?, hmap, OrderedMap.get?_set_of_ne _ _ hk]
    exact h
  · have hne : k ≠ victim := by
      rcases hroom with hmem | hroom | hother
      · exact absurd hmem hnew
      · simp [hfull] at hroom
      · rintro rfl
        exact hother hvictim
    rw [get?, hmap, OrderedMap.get?_set_of_ne _ _ hk, OrderedMap.get?_delete_of_ne _ hne]
    exact h

/-- Whatever is evicted, a value found under another key was there before. -/
theorem get?_of_get?_set {m : BoundedFifoMap κ α} {evictionScore : Option (EvictionScore κ α)}
    {key k : κ} {value v : α} (h : (m.set evictionScore key value).get? k = some v) :
    (k = key ∧ v = value) ∨ m.get? k = some v := by
  rcases m.set_cases evictionScore key value with
    ⟨-, hsame⟩ | ⟨-, -, hmap⟩ | ⟨-, -, -, victim, -, -, hmap⟩
  · exact .inr (hsame ▸ h)
  · rw [get?, hmap, OrderedMap.get?_set] at h
    split_ifs at h with hk
    · exact .inl ⟨hk, (Option.some_inj.mp h).symm⟩
    · exact .inr h
  · rw [get?, hmap, OrderedMap.get?_set] at h
    split_ifs at h with hk
    · exact .inl ⟨hk, (Option.some_inj.mp h).symm⟩
    · rw [OrderedMap.get?_delete] at h
      split_ifs at h with hv
      exact .inr h

/-- A key that is not evicted keeps what it had, also when it had nothing. -/
theorem get?_set_of_spared {m : BoundedFifoMap κ α} {evictionScore : Option (EvictionScore κ α)}
    {key k : κ} (value : α) (hk : k ≠ key) (hspared : m.victim? evictionScore key ≠ some k) :
    (m.set evictionScore key value).get? k = m.get? k := by
  rcases m.set_cases evictionScore key value with
    ⟨-, hsame⟩ | ⟨-, -, hmap⟩ | ⟨-, -, -, victim, -, hvictim, hmap⟩
  · rw [hsame]
  · rw [get?, hmap, OrderedMap.get?_set_of_ne _ _ hk]
    rfl
  · have hne : k ≠ victim := by
      rintro rfl
      exact hspared hvictim
    rw [get?, hmap, OrderedMap.get?_set_of_ne _ _ hk, OrderedMap.get?_delete_of_ne _ hne]
    rfl

theorem mem_entries_of_mem_set {m : BoundedFifoMap κ α}
    {evictionScore : Option (EvictionScore κ α)} {key : κ} {value : α} {e : κ × α}
    (h : e ∈ (m.set evictionScore key value).entries) : e = (key, value) ∨ e ∈ m.entries := by
  obtain ⟨k, v⟩ := e
  rw [← get?_eq_some] at h
  refine (get?_of_get?_set h).imp ?_ get?_eq_some.mp
  rintro ⟨rfl, rfl⟩
  rfl

/-- When every score is finite, no entry scores below the victim. -/
theorem score_victim_le {m : BoundedFifoMap κ α} {score : EvictionScore κ α} {key k : κ} {v : α}
    (hfinite : ∀ e ∈ m.entries, score e.1 e.2 < ⊤) (hvictim : m.victim? (some score) key = some k)
    (hget : m.get? k = some v) : ∀ e ∈ m.entries, score k v ≤ score e.1 e.2 := by
  have hpick : m.pickEvictionCandidate (some score) = some k := by
    unfold victim? at hvictim
    split_ifs at hvictim
    exact hvictim
  obtain ⟨before, w, after, hsplit, hbefore, hafter⟩ := pickEvictionCandidate_first hfinite hpick
  obtain rfl : w = v := by
    have hmem : (k, w) ∈ m.entries := by simp [hsplit]
    exact Option.some.inj ((get?_eq_some.mpr hmem).symm.trans hget)
  intro e he
  rw [hsplit] at he
  rcases List.mem_append.mp he with he | he
  · exact (hbefore e he).le
  · rcases List.mem_cons.mp he with rfl | he
    · exact le_rfl
    · exact hafter e he

/-! ### First in, first out -/

section
variable {m : BoundedFifoMap κ α} {k key : κ} {v value : α} {n : ℕ}

/-- At most `n` entries were added after the one of `k`. -/
def AtMostNewer (m : BoundedFifoMap κ α) (k : κ) (n : ℕ) : Prop :=
  ∀ before v after, m.entries = before ++ (k, v) :: after → after.length ≤ n

omit [DecidableEq κ] in
theorem AtMostNewer.filter (h : m.AtMostNewer k n) (p : κ → α → Bool) : (m.filter p).AtMostNewer k n := by
  intro before v after hsplit
  obtain ⟨l₁, l₂, hentries, -, hafter⟩ := List.filter_eq_append_iff.mp hsplit
  obtain ⟨l₃, l₄, rfl, -, -, rfl⟩ := List.filter_eq_cons_iff.mp hafter
  have hlength := h (l₁ ++ l₃) v l₄ (by rw [List.append_assoc]; exact hentries)
  exact (List.length_filter_le _ _).trans hlength

theorem AtMostNewer.delete (h : m.AtMostNewer k n) (key : κ) : (m.delete key).AtMostNewer k n :=
  h.filter _

theorem entries_set_of_notMem {map : OrderedMap κ α} (hnew : key ∉ map.keys) :
    (map.set key value).entries = map.entries ++ [(key, value)] :=
  OrderedMap.setEntries_of_notMem key value map.entries hnew

/-- The entries after one `set` of a new key: perhaps without the oldest, and with the new one. -/
theorem entries_set_new (value : α) (hpos : 0 < m.maxSize) (hnew : key ∉ m.keys) :
    (m.full = false ∧ (m.set none key value).entries = m.entries ++ [(key, value)]) ∨
    ∃ oldest rest, m.full = true ∧ m.entries = oldest :: rest ∧
      (m.set none key value).entries = rest ++ [(key, value)] := by
  rcases m.set_cases none key value with ⟨hmax, -⟩ | ⟨-, hroom, hmap⟩ | ⟨-, -, hfull, victim, -, hvictim, hmap⟩
  · exact absurd hmax (not_le.mpr hpos)
  · refine .inl ⟨hroom.resolve_left hnew, ?_⟩
    rw [entries, hmap]
    exact entries_set_of_notMem hnew
  · have holdest : m.map.oldest? = some victim := by
      unfold victim? at hvictim
      split_ifs at hvictim
      exact hvictim
    cases hentries : m.entries with
    | nil =>
      have hnil : m.map.keys = [] := by rw [OrderedMap.keys]; exact congrArg _ hentries
      simp [OrderedMap.oldest?, hnil] at holdest
    | cons oldest rest =>
      obtain ⟨k, v⟩ := oldest
      have hhead : m.map.keys = k :: rest.map Prod.fst := congrArg (List.map Prod.fst) hentries
      obtain rfl : k = victim := by simpa [OrderedMap.oldest?, hhead] using holdest
      refine .inr ⟨(k, v), rest, hfull, rfl, ?_⟩
      have hsplit : m.map.entries = [] ++ (k, v) :: rest := hentries
      have hdelete : (m.map.delete k).entries = rest := OrderedMap.entries_delete_of_split hsplit
      have hnew' : key ∉ (m.map.delete k).keys := fun hmem => hnew (OrderedMap.mem_keys_delete.mp hmem).1
      rw [entries, hmap, entries_set_of_notMem hnew', hdelete]

theorem atMostNewer_set_self (hpos : 0 < m.maxSize) (hnew : key ∉ m.keys) :
    (m.set none key value).AtMostNewer key 0 := by
  intro before v after hsplit
  have hnodup : ((m.set none key value).entries.map Prod.fst).Nodup := (m.set none key value).map.nodup
  have hlast : ∃ l, (m.set none key value).entries = l ++ [(key, value)] := by
    rcases entries_set_new value hpos hnew with ⟨-, h⟩ | ⟨_, rest, -, -, h⟩
    · exact ⟨_, h⟩
    · exact ⟨rest, h⟩
  obtain ⟨l, hl⟩ := hlast
  rcases List.eq_nil_or_concat after with rfl | ⟨init, e, rfl⟩
  · rfl
  · have hsame : before ++ (key, v) :: init ++ [e] = l ++ [(key, value)] := by
      rw [← hl, hsplit]
      simp
    obtain ⟨-, he⟩ := List.append_inj' hsame rfl
    obtain rfl : e = (key, value) := by simpa using he
    rw [hsplit, List.map_append, List.map_cons] at hnodup
    have hmem : key ∈ (init.concat (key, value)).map Prod.fst := by simp
    exact absurd hmem (List.nodup_cons.mp hnodup.of_append_right).1

theorem AtMostNewer.set (h : m.AtMostNewer k n) (hpos : 0 < m.maxSize) (hnew : key ∉ m.keys) (hk : k ≠ key) :
    (m.set none key value).AtMostNewer k (n + 1) := by
  intro before v after hsplit
  have hsplit' : ∀ l, before ++ (k, v) :: after = l ++ [(key, value)] →
      ∃ init, l = before ++ (k, v) :: init ∧ after.length = init.length + 1 := by
    intro l hl
    rcases List.eq_nil_or_concat after with rfl | ⟨init, e, rfl⟩
    · obtain ⟨-, he⟩ := List.append_inj' hl rfl
      simp [hk] at he
    · have hsame : before ++ (k, v) :: init ++ [e] = l ++ [(key, value)] := by rw [← hl]; simp
      obtain ⟨rfl, -⟩ := List.append_inj' hsame rfl
      exact ⟨init, rfl, by simp⟩
  rcases entries_set_new value hpos hnew with ⟨-, hset⟩ | ⟨oldest, rest, -, hentries, hset⟩
  · obtain ⟨init, hinit, hlength⟩ := hsplit' m.entries (hsplit.symm.trans hset)
    rw [hlength]
    exact Nat.succ_le_succ (h before v init hinit)
  · obtain ⟨init, hinit, hlength⟩ := hsplit' rest (hsplit.symm.trans hset)
    rw [hlength]
    exact Nat.succ_le_succ (h (oldest :: before) v init (by rw [hentries, hinit]; rfl))

/-- An entry that is not among the oldest survives the addition of another. -/
theorem AtMostNewer.get?_set (h : m.AtMostNewer k n) (hn : (((n + 1 : ℕ) : ℤ) : WithTop ℤ) < m.maxSize)
    (hnew : key ∉ m.keys) (hget : m.get? k = some v) :
    (m.set none key value).get? k = some v := by
  have hpos : 0 < m.maxSize := maxSize_pos_of_get? hget
  have hmem : (k, v) ∈ m.entries := get?_eq_some.mp hget
  refine get?_eq_some.mpr ?_
  rcases entries_set_new value hpos hnew with ⟨-, hset⟩ | ⟨oldest, rest, hfull, hentries, hset⟩
  · rw [hset]
    exact List.mem_append_left _ hmem
  · rw [hset]
    rw [hentries] at hmem
    rcases List.mem_cons.mp hmem with rfl | hmem
    · -- the oldest entry has the whole map after it
      have hrest : rest.length ≤ n := h [] v rest hentries
      have hsize : m.size = rest.length + 1 := by rw [size, OrderedMap.size]; exact congrArg _ hentries
      have hle : m.maxSize ≤ (((n + 1 : ℕ) : ℤ) : WithTop ℤ) := by
        have hmax : m.maxSize ≤ (((m.size : ℕ) : ℤ) : WithTop ℤ) := of_decide_eq_true hfull
        refine hmax.trans (WithTop.coe_le_coe.mpr ?_)
        exact_mod_cast hsize.le.trans (Nat.succ_le_succ hrest)
      exact absurd hn (not_lt.mpr hle)
    · exact List.mem_append_left _ hmem

end

/-! ### Keys that came last -/

/-- The keys in use are newer than all others, and there is room for all of them. -/
structure Shelters (m : BoundedFifoMap κ α) (used : Finset κ) : Prop where
  fits : (((used.card : ℕ) : ℤ) : WithTop ℤ) ≤ m.maxSize
  split : ∃ older newer, m.keys = older ++ newer ∧ (∀ k ∈ older, k ∉ used) ∧ ∀ k ∈ newer, k ∈ used

section

variable {m : BoundedFifoMap κ α} {used : Finset κ} {key : κ}

omit [DecidableEq κ] in
theorem Shelters.of_disjoint (hfits : (((used.card : ℕ) : ℤ) : WithTop ℤ) ≤ m.maxSize)
    (hkeys : ∀ k ∈ m.keys, k ∉ used) : m.Shelters used :=
  ⟨hfits, m.keys, [], (List.append_nil _).symm, hkeys, by simp⟩

theorem Shelters.delete (h : m.Shelters used) (hkey : key ∈ used) : (m.delete key).Shelters used := by
  obtain ⟨older, newer, hkeys, holder, hnewer⟩ := h.split
  have hnot : key ∉ older := fun hmem => holder key hmem hkey
  refine ⟨h.fits, older, newer.erase key, ?_, holder, fun k hk => hnewer k (List.mem_of_mem_erase hk)⟩
  rw [keys] at hkeys
  rw [keys, ← List.erase_append_right _ hnot, ← hkeys]
  exact OrderedMap.keys_delete _ _

/-- A key in use takes the place of none of the others. -/
theorem Shelters.set (h : m.Shelters used) (hkey : key ∈ used) (value : α) :
    (m.set none key value).Shelters used ∧
      ∀ k ∈ used, (m.set none key value).get? k = if k = key then some value else m.get? k := by
  have hcard : 0 < used.card := Finset.card_pos.mpr ⟨key, hkey⟩
  have hpos : 0 < m.maxSize := lt_of_lt_of_le (WithTop.coe_lt_coe.mpr (by exact_mod_cast hcard)) h.fits
  have hmax : (m.set none key value).maxSize = m.maxSize := maxSize_set _ _ _ _
  obtain ⟨older, newer, hkeys, holder, hnewer⟩ := h.split
  by_cases hmem : key ∈ m.keys
  · have hroom : key ∈ m.keys ∨ m.full = false := .inl hmem
    refine ⟨⟨by rw [hmax]; exact h.fits, older, newer, ?_, holder, hnewer⟩, ?_⟩
    · rw [← hkeys]
      rcases m.set_cases none key value with ⟨-, hsame⟩ | ⟨-, -, hmap⟩ | ⟨-, hnew, -⟩
      · rw [hsame]
      · rw [keys, hmap]
        exact OrderedMap.keys_set_of_mem value hmem
      · exact absurd hmem hnew
    · intro k _
      exact get?_set_of_room hpos hroom k
  · have hnewer' : ∀ k ∈ newer ++ [key], k ∈ used := by
      intro k hk
      rcases List.mem_append.mp hk with hk | hk
      · exact hnewer k hk
      · rwa [List.mem_singleton.mp hk]
    rcases entries_set_new value hpos hmem with ⟨hfull, hset⟩ | ⟨oldest, rest, hfull, hentries, hset⟩
    · refine ⟨⟨by rw [hmax]; exact h.fits, older, newer ++ [key], ?_, holder, hnewer'⟩, ?_⟩
      · rw [← List.append_assoc, ← hkeys]
        exact (congrArg (List.map Prod.fst) hset).trans List.map_append
      · intro k _
        exact get?_set_of_room hpos (.inr hfull) k
    · have hrest : m.keys = oldest.1 :: rest.map Prod.fst := congrArg (List.map Prod.fst) hentries
      cases older with
      | nil =>
        -- then the keys of the full map, and one more, are in use
        rw [List.nil_append] at hkeys
        have hnodup : (key :: m.keys).Nodup := List.nodup_cons.mpr ⟨hmem, m.map.nodup_keys⟩
        have hsub : (key :: m.keys).toFinset ⊆ used := by
          intro k hk
          rcases List.mem_cons.mp (List.mem_toFinset.mp hk) with rfl | hk
          · exact hkey
          · exact hnewer k (hkeys ▸ hk)
        have hle := Finset.card_le_card hsub
        have hlength : m.keys.length = m.size := OrderedMap.length_keys _
        rw [List.toFinset_card_of_nodup hnodup, List.length_cons, hlength] at hle
        have hsize : (((m.size : ℕ) : ℤ) : WithTop ℤ) < m.maxSize :=
          lt_of_lt_of_le (WithTop.coe_lt_coe.mpr (by exact_mod_cast hle)) h.fits
        exact absurd (of_decide_eq_true hfull) (not_le.mpr hsize)
      | cons first older =>
        obtain ⟨rfl, htail⟩ := List.cons.inj (hrest.symm.trans hkeys)
        have hrest' : rest.map Prod.fst = older ++ newer := htail
        have hold := fun k hk => holder k (List.mem_cons_of_mem _ hk)
        refine ⟨⟨by rw [hmax]; exact h.fits, older, newer ++ [key], ?_, hold, hnewer'⟩, ?_⟩
        · rw [← List.append_assoc, ← hrest']
          exact (congrArg (List.map Prod.fst) hset).trans List.map_append
        · intro k hk
          have hne : k ≠ oldest.1 := by
            rintro rfl
            exact holder _ (List.mem_cons_self ..) hk
          split_ifs with hsame
          · subst hsame
            exact get?_set_self none k value hpos
          · refine Option.ext fun v => ?_
            have hv : (k, v) ≠ oldest := fun heq => hne (congrArg Prod.fst heq)
            rw [get?_eq_some, get?_eq_some, hset, hentries]
            simp [hsame, hv]

end

end BoundedFifoMap
end Arald
