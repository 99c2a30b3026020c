import Mathlib

/-!
# Insertion-ordered finite maps

The dictionary of an ECMAScript program: keys are unique, iteration follows
the order of first insertion, overwriting a key keeps its place and deleting
it gives the place up. Uniqueness of the keys is a field of the structure, so
a map with a repeated key cannot be written down.
-/

namespace Foundations

/-- A list of equal elements without repetitions has at most one of them. -/
theorem length_le_one_of_nodup {α : Type*} {l : List α} (hnodup : l.Nodup)
    (h : ∀ x ∈ l, ∀ y ∈ l, x = y) : l.length ≤ 1 := by
  match l, hnodup with
  | [], _ => simp
  | [_], _ => simp
  | x :: y :: rest, hnodup =>
    have hxy : x = y := h x (by simp) y (by simp)
    simp [hxy] at hnodup

/-- A finite map whose entries are listed in insertion order. -/
structure OrderedMap (κ : Type*) (α : Type*) where
  entries : List (κ × α)
  nodup : (entries.map Prod.fst).Nodup

namespace OrderedMap

variable {κ α β : Type*}

@[ext] theorem ext {m m' : OrderedMap κ α} (h : m.entries = m'.entries) : m = m' := by
  cases m
  cases m'
  simpa using h

def empty : OrderedMap κ α := ⟨[], List.nodup_nil⟩

instance : Inhabited (OrderedMap κ α) := ⟨empty⟩

def keys (m : OrderedMap κ α) : List κ := m.entries.map Prod.fst

def values (m : OrderedMap κ α) : List α := m.entries.map Prod.snd

def size (m : OrderedMap κ α) : ℕ := m.entries.length

/-- The key that has been in the map longest. -/
def oldest? (m : OrderedMap κ α) : Option κ := m.keys.head?

@[simp] theorem entries_empty : (empty : OrderedMap κ α).entries = [] := rfl

@[simp] theorem size_empty : (empty : OrderedMap κ α).size = 0 := rfl

@[simp] theorem length_keys (m : OrderedMap κ α) : m.keys.length = m.size := by
  simp [keys, size]

theorem nodup_keys (m : OrderedMap κ α) : m.keys.Nodup := m.nodup

theorem mem_keys {m : OrderedMap κ α} {k : κ} : k ∈ m.keys ↔ ∃ v, (k, v) ∈ m.entries := by
  simp [keys]

theorem mem_keys_of_mem {m : OrderedMap κ α} {k : κ} {v : α} (h : (k, v) ∈ m.entries) :
    k ∈ m.keys := mem_keys.mpr ⟨v, h⟩

theorem mem_values {m : OrderedMap κ α} {v : α} : v ∈ m.values ↔ ∃ k, (k, v) ∈ m.entries := by
  simp [values]

theorem eq_of_mem_entries {m : OrderedMap κ α} {k : κ} {v w : α}
    (hv : (k, v) ∈ m.entries) (hw : (k, w) ∈ m.entries) : v = w := by
  have h := List.inj_on_of_nodup_map m.nodup hv hw rfl
  exact congrArg Prod.snd h

/-- Keeping the entries that satisfy a test keeps the keys distinct. -/
def filter (m : OrderedMap κ α) (p : κ → α → Bool) : OrderedMap κ α where
  entries := m.entries.filter fun e => p e.1 e.2
  nodup := m.nodup.sublist (List.filter_sublist.map _)

@[simp] theorem mem_filter {m : OrderedMap κ α} {p : κ → α → Bool} {k : κ} {v : α} :
    (k, v) ∈ (m.filter p).entries ↔ (k, v) ∈ m.entries ∧ p k v = true := by
  simp [filter]

theorem size_filter_le (m : OrderedMap κ α) (p : κ → α → Bool) : (m.filter p).size ≤ m.size :=
  List.length_filter_le ..

/-- Rewriting every value leaves the keys, and their order, as they are. -/
def mapValues (m : OrderedMap κ α) (f : κ → α → β) : OrderedMap κ β where
  entries := m.entries.map fun e => (e.1, f e.1 e.2)
  nodup := by simpa [Function.comp_def] using m.nodup

@[simp] theorem keys_mapValues (m : OrderedMap κ α) (f : κ → α → β) :
    (m.mapValues f).keys = m.keys := by
  simp [keys, mapValues, Function.comp_def]

/-- A map is empty exactly when it has no oldest key. -/
theorem oldest?_eq_none {m : OrderedMap κ α} : m.oldest? = none ↔ m.size = 0 := by
  simp [oldest?, keys, size]

theorem mem_keys_of_oldest? {m : OrderedMap κ α} {k : κ} (h : m.oldest? = some k) : k ∈ m.keys :=
  List.mem_of_mem_head? h

variable [DecidableEq κ]

/-! ### Lookup -/

def get? (m : OrderedMap κ α) (k : κ) : Option α :=
  (m.entries.find? fun e => e.1 = k).map Prod.snd

def has (m : OrderedMap κ α) (k : κ) : Bool := (m.get? k).isSome

@[simp] theorem get?_empty (k : κ) : (empty : OrderedMap κ α).get? k = none := rfl

theorem get?_eq_some {m : OrderedMap κ α} {k : κ} {v : α} :
    m.get? k = some v ↔ (k, v) ∈ m.entries := by
  constructor
  · intro h
    obtain ⟨⟨k', v'⟩, hfind, rfl⟩ := Option.map_eq_some_iff.mp h
    have hkey : k' = k := by simpa using List.find?_some hfind
    exact hkey ▸ List.mem_of_find?_eq_some hfind
  · intro h
    have hsome : (m.entries.find? fun e => e.1 = k).isSome := by
      rw [List.find?_isSome]
      exact ⟨(k, v), h, by simp⟩
    obtain ⟨⟨k', v'⟩, hfind⟩ := Option.isSome_iff_exists.mp hsome
    have hkey : k' = k := by simpa using List.find?_some hfind
    subst hkey
    have hval : v' = v := eq_of_mem_entries (List.mem_of_find?_eq_some hfind) h
    simp [get?, hfind, hval]

theorem get?_mapValues (m : OrderedMap κ α) (f : κ → α → β) (k : κ) :
    (m.mapValues f).get? k = (m.get? k).map (f k) := by
  ext b
  rw [get?_eq_some, Option.map_eq_some_iff, mapValues, List.mem_map]
  constructor
  · rintro ⟨⟨k', a⟩, he, heq⟩
    obtain ⟨rfl, rfl⟩ := Prod.mk.inj heq
    exact ⟨a, get?_eq_some.mpr he, rfl⟩
  · rintro ⟨a, ha, rfl⟩
    exact ⟨(k, a), get?_eq_some.mp ha, rfl⟩

theorem get?_eq_none {m : OrderedMap κ α} {k : κ} : m.get? k = none ↔ k ∉ m.keys := by
  rw [Option.eq_none_iff_forall_ne_some, mem_keys]
  simp only [ne_eq, get?_eq_some, not_exists]

theorem has_iff {m : OrderedMap κ α} {k : κ} : m.has k = true ↔ k ∈ m.keys := by
  simp [has, Option.isSome_iff_exists, get?_eq_some, mem_keys]

theorem mem_keys_of_get? {m : OrderedMap κ α} {k : κ} {v : α} (h : m.get? k = some v) :
    k ∈ m.keys := mem_keys_of_mem (get?_eq_some.mp h)

/-! ### Deletion -/

def delete (m : OrderedMap κ α) (k : κ) : OrderedMap κ α := m.filter fun k' _ => k' ≠ k

theorem mem_delete {m : OrderedMap κ α} {k k' : κ} {v : α} :
    (k', v) ∈ (m.delete k).entries ↔ (k', v) ∈ m.entries ∧ k' ≠ k := by
  simp [delete]

theorem mem_keys_delete {m : OrderedMap κ α} {k k' : κ} :
    k' ∈ (m.delete k).keys ↔ k' ∈ m.keys ∧ k' ≠ k := by
  simp [mem_keys, mem_delete]

theorem get?_filter (m : OrderedMap κ α) (p : κ → α → Bool) (k : κ) :
    (m.filter p).get? k = (m.get? k).filter (p k) := by
  ext v
  simp [get?_eq_some, Option.filter_eq_some_iff]

theorem get?_delete (m : OrderedMap κ α) (k k' : κ) :
    (m.delete k).get? k' = if k' = k then none else m.get? k' := by
  rw [delete, get?_filter]
  split_ifs with h <;> cases m.get? k' <;> simp [h]

@[simp] theorem get?_delete_self (m : OrderedMap κ α) (k : κ) : (m.delete k).get? k = none := by
  simp [get?_delete]

theorem get?_delete_of_ne (m : OrderedMap κ α) {k k' : κ} (h : k' ≠ k) :
    (m.delete k).get? k' = m.get? k' := by
  simp [get?_delete, h]

theorem keys_delete (m : OrderedMap κ α) (k : κ) : (m.delete k).keys = m.keys.erase k := by
  rw [m.nodup_keys.erase_eq_filter]
  simp only [keys, delete, filter, List.filter_map]
  congr 1
  apply List.filter_congr
  intro e _
  simp only [Function.comp_apply, bne]
  by_cases h : e.1 = k <;> simp [h]

theorem size_delete_of_mem {m : OrderedMap κ α} {k : κ} (h : k ∈ m.keys) :
    (m.delete k).size + 1 = m.size := by
  rw [← length_keys, keys_delete, ← length_keys, List.length_erase_of_mem h]
  have := List.length_pos_of_mem h
  omega

/-- Deleting a key takes its one entry out and leaves the others in place. -/
theorem entries_delete_of_split {m : OrderedMap κ α} {k : κ} {v : α} {before after : List (κ × α)}
    (h : m.entries = before ++ (k, v) :: after) : (m.delete k).entries = before ++ after := by
  have hnodup := m.nodup
  rw [h, List.map_append, List.map_cons, List.nodup_middle, List.nodup_cons] at hnodup
  have hne : ∀ e ∈ before ++ after, e.1 ≠ k := by
    intro e he hkey
    apply hnodup.1
    rw [← List.map_append]
    exact List.mem_map.mpr ⟨e, he, hkey⟩
  simp only [delete, filter, h, List.filter_append, List.filter_cons]
  rw [if_neg (by simp), ← List.filter_append, List.filter_eq_self]
  intro e he
  simpa using hne e he

theorem delete_of_notMem {m : OrderedMap κ α} {k : κ} (h : k ∉ m.keys) : m.delete k = m := by
  apply ext
  simp only [delete, filter, List.filter_eq_self]
  intro e he
  have hne : e.1 ≠ k := fun heq => h (heq ▸ mem_keys_of_mem (v := e.2) he)
  simpa using hne

theorem size_delete_le (m : OrderedMap κ α) (k : κ) : (m.delete k).size ≤ m.size :=
  m.size_filter_le _

/-! ### Insertion -/

/-- Overwrite in place, or append when the key is new. -/
def setEntries (k : κ) (v : α) : List (κ × α) → List (κ × α)
  | [] => [(k, v)]
  | (k', v') :: rest => if k' = k then (k, v) :: rest else (k', v') :: setEntries k v rest

theorem setEntries_keys_of_mem (k : κ) (v : α) (l : List (κ × α)) (h : k ∈ l.map Prod.fst) :
    (setEntries k v l).map Prod.fst = l.map Prod.fst := by
  induction l with
  | nil => simp at h
  | cons e rest ih =>
    obtain ⟨k', v'⟩ := e
    by_cases hk : k' = k
    · simp [setEntries, hk]
    · have hrest : k ∈ rest.map Prod.fst := by simpa [Ne.symm hk] using h
      simp [setEntries, hk, ih hrest]

theorem setEntries_of_notMem (k : κ) (v : α) (l : List (κ × α)) (h : k ∉ l.map Prod.fst) :
    setEntries k v l = l ++ [(k, v)] := by
  induction l with
  | nil => rfl
  | cons e rest ih =>
    obtain ⟨k', v'⟩ := e
    have hk : k' ≠ k := by
      rintro rfl
      simp at h
    have hrest : k ∉ rest.map Prod.fst := fun hmem => h (List.mem_cons_of_mem _ hmem)
    simp [setEntries, hk, ih hrest]

theorem setEntries_nodup (k : κ) (v : α) (l : List (κ × α)) (h : (l.map Prod.fst).Nodup) :
    ((setEntries k v l).map Prod.fst).Nodup := by
  by_cases hk : k ∈ l.map Prod.fst
  · rwa [setEntries_keys_of_mem k v l hk]
  · rw [setEntries_of_notMem k v l hk, List.map_append, List.map_cons, List.map_nil]
    exact h.append (List.nodup_singleton k) (List.disjoint_singleton.mpr hk)

/-- Membership after `setEntries`, for a list whose keys are distinct. -/
theorem mem_setEntries (k : κ) (v : α) (l : List (κ × α)) (h : (l.map Prod.fst).Nodup)
    (e : κ × α) : e ∈ setEntries k v l ↔ e = (k, v) ∨ (e ∈ l ∧ e.1 ≠ k) := by
  induction l with
  | nil => simp [setEntries]
  | cons hd rest ih =>
    obtain ⟨k', v'⟩ := hd
    rw [List.map_cons, List.nodup_cons] at h
    obtain ⟨hk', hrest⟩ := h
    by_cases hk : k' = k
    · subst hk
      have hne : ∀ e ∈ rest, e.1 ≠ k' := fun e he heq =>
        hk' (List.mem_map.mpr ⟨e, he, heq⟩)
      simp only [setEntries, if_true, List.mem_cons]
      constructor
      · rintro (rfl | he)
        · exact .inl rfl
        · exact .inr ⟨.inr he, hne e he⟩
      · rintro (rfl | ⟨rfl | he, hne'⟩)
        · exact .inl rfl
        · exact absurd rfl hne'
        · exact .inr he
    · simp only [setEntries, if_neg hk, List.mem_cons, ih hrest]
      constructor
      · rintro (rfl | rfl | ⟨he, hne⟩)
        · exact .inr ⟨.inl rfl, hk⟩
        · exact .inl rfl
        · exact .inr ⟨.inr he, hne⟩
      · rintro (rfl | ⟨rfl | he, hne⟩)
        · exact .inr (.inl rfl)
        · exact .inl rfl
        · exact .inr (.inr ⟨he, hne⟩)

def set (m : OrderedMap κ α) (k : κ) (v : α) : OrderedMap κ α where
  entries := setEntries k v m.entries
  nodup := setEntries_nodup k v m.entries m.nodup

theorem mem_set {m : OrderedMap κ α} {k k' : κ} {v w : α} :
    (k', w) ∈ (m.set k v).entries ↔ (k' = k ∧ w = v) ∨ ((k', w) ∈ m.entries ∧ k' ≠ k) := by
  rw [set, mem_setEntries k v m.entries m.nodup, Prod.mk.injEq]

theorem get?_set (m : OrderedMap κ α) (k k' : κ) (v : α) :
    (m.set k v).get? k' = if k' = k then some v else m.get? k' := by
  ext w
  rw [get?_eq_some, mem_set]
  split_ifs with h
  · simp [h, eq_comm]
  · simp [h, get?_eq_some]

@[simp] theorem get?_set_self (m : OrderedMap κ α) (k : κ) (v : α) :
    (m.set k v).get? k = some v := by
  simp [get?_set]

theorem setEntries_of_mem {k : κ} {v : α} {l : List (κ × α)} (hmem : (k, v) ∈ l)
    (hnodup : (l.map Prod.fst).Nodup) : setEntries k v l = l := by
  induction l with
  | nil => cases hmem
  | cons e l ih =>
    rw [List.map_cons] at hnodup
    obtain ⟨hnew, hnodup⟩ := List.nodup_cons.mp hnodup
    rw [setEntries]
    rcases List.mem_cons.mp hmem with rfl | hmem
    · rw [if_pos rfl]
    · have hne : e.1 ≠ k := fun heq => hnew (heq ▸ List.mem_map_of_mem (f := Prod.fst) hmem)
      rw [if_neg hne, ih hmem hnodup]

/-- What is there already changes nothing. -/
theorem set_of_get? {m : OrderedMap κ α} {k : κ} {v : α} (h : m.get? k = some v) : m.set k v = m := by
  have hentries := setEntries_of_mem (get?_eq_some.mp h) m.nodup
  cases m
  exact (OrderedMap.mk.injEq ..).mpr hentries

theorem get?_set_of_ne (m : OrderedMap κ α) {k k' : κ} (v : α) (h : k' ≠ k) :
    (m.set k v).get? k' = m.get? k' := by
  simp [get?_set, h]

/-- Deleting a key undoes whatever was written to it. -/
theorem delete_set_self (m : OrderedMap κ α) (k : κ) (v : α) : (m.set k v).delete k = m.delete k := by
  apply ext
  simp only [delete, filter, set]
  induction m.entries with
  | nil => simp [setEntries]
  | cons e rest ih =>
    obtain ⟨k', v'⟩ := e
    by_cases hk : k' = k
    · simp [setEntries, hk]
    · simpa [setEntries, hk] using ih

/-- What holds of all values and of the new one holds of all values after `set`. -/
theorem forall_get?_set {m : OrderedMap κ α} {P : κ → α → Prop} {k : κ} {v : α}
    (h : ∀ k' w, m.get? k' = some w → P k' w) (hv : P k v) :
    ∀ k' w, (m.set k v).get? k' = some w → P k' w := by
  intro k' w hget
  rw [get?_set] at hget
  split_ifs at hget with hk
  · obtain rfl := Option.some.inj hget
    exact hk ▸ hv
  · exact h k' w hget

theorem forall_get?_delete {m : OrderedMap κ α} {P : κ → α → Prop} (k : κ)
    (h : ∀ k' w, m.get? k' = some w → P k' w) :
    ∀ k' w, (m.delete k).get? k' = some w → P k' w := by
  intro k' w hget
  rw [get?_delete] at hget
  split_ifs at hget
  exact h k' w hget

theorem mem_keys_set {m : OrderedMap κ α} {k k' : κ} {v : α} :
    k' ∈ (m.set k v).keys ↔ k' = k ∨ k' ∈ m.keys := by
  rw [← not_iff_not, not_or, ← get?_eq_none, get?_set, ← get?_eq_none]
  split_ifs with h <;> simp [h]

theorem has_set_of_has {m : OrderedMap κ α} {k k' : κ} {v : α} (h : m.has k' = true) :
    (m.set k v).has k' = true :=
  has_iff.mpr (mem_keys_set.mpr (.inr (has_iff.mp h)))

theorem keys_set_of_mem {m : OrderedMap κ α} {k : κ} (v : α) (h : k ∈ m.keys) :
    (m.set k v).keys = m.keys := setEntries_keys_of_mem k v m.entries h

theorem keys_set_of_notMem {m : OrderedMap κ α} {k : κ} (v : α) (h : k ∉ m.keys) :
    (m.set k v).keys = m.keys ++ [k] := by
  simp only [keys, set, setEntries_of_notMem k v m.entries h, List.map_append, List.map_cons,
    List.map_nil]

theorem size_set_of_mem {m : OrderedMap κ α} {k : κ} (v : α) (h : k ∈ m.keys) :
    (m.set k v).size = m.size := by
  rw [← length_keys, keys_set_of_mem v h, length_keys]

theorem size_set_of_notMem {m : OrderedMap κ α} {k : κ} (v : α) (h : k ∉ m.keys) :
    (m.set k v).size = m.size + 1 := by
  rw [← length_keys, keys_set_of_notMem v h, List.length_append, length_keys, List.length_singleton]

/-! ### Counting -/

/-- How many entries satisfy a test. -/
def count (m : OrderedMap κ α) (p : κ → α → Bool) : ℕ := m.entries.countP fun e => p e.1 e.2

theorem countP_setEntries {p : κ × α → Bool} {k : κ} {v w : α} {l : List (κ × α)}
    (hnodup : (l.map Prod.fst).Nodup) (h : (k, w) ∈ l) :
    (setEntries k v l).countP p + (p (k, w)).toNat = l.countP p + (p (k, v)).toNat := by
  induction l with
  | nil => simp at h
  | cons e rest ih =>
    obtain ⟨k', v'⟩ := e
    rw [List.map_cons, List.nodup_cons] at hnodup
    obtain ⟨hk', hrest⟩ := hnodup
    by_cases hk : k' = k
    · subst hk
      have hw : w = v' := by
        rcases List.mem_cons.mp h with hhead | htail
        · exact congrArg Prod.snd hhead
        · exact absurd (List.mem_map.mpr ⟨_, htail, rfl⟩) hk'
      subst hw
      cases hv : p (k', v) <;> cases hw : p (k', w) <;>
        simp [setEntries, hv, hw]
    · have htail : (k, w) ∈ rest := by
        rcases List.mem_cons.mp h with hhead | htail
        · exact absurd (congrArg Prod.fst hhead).symm hk
        · exact htail
      have hih := ih hrest htail
      simp only [setEntries, if_neg hk, List.countP_cons]
      omega

/-- Overwriting trades the old value for the new one. -/
theorem count_set_of_get? {m : OrderedMap κ α} {k : κ} {v w : α} (p : κ → α → Bool)
    (h : m.get? k = some w) :
    (m.set k v).count p + (p k w).toNat = m.count p + (p k v).toNat :=
  countP_setEntries m.nodup (get?_eq_some.mp h)

theorem count_set_of_notMem {m : OrderedMap κ α} {k : κ} (v : α) (p : κ → α → Bool)
    (h : k ∉ m.keys) : (m.set k v).count p = m.count p + (p k v).toNat := by
  cases hp : p k v <;>
    simp [count, set, setEntries_of_notMem k v m.entries h, List.countP_append, hp]

theorem count_delete_of_get? {m : OrderedMap κ α} {k : κ} {w : α} (p : κ → α → Bool)
    (h : m.get? k = some w) : (m.delete k).count p + (p k w).toNat = m.count p := by
  obtain ⟨before, after, hsplit⟩ := List.append_of_mem (get?_eq_some.mp h)
  have hdelete := entries_delete_of_split hsplit
  cases hp : p k w <;>
    simp [count, hdelete, hsplit, List.countP_append, hp]
  omega

end OrderedMap
end Foundations
