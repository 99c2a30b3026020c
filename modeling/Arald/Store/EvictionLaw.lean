import Arald.Foundations.Runs
import Arald.Store.BoundedFifoMap

/-!
# The eviction law of the bounded map

Runs of `set`, `get` and `delete` on one map whose score function may be another one at every
operation. A score is any number but NaN. Only the order of the scores matters, so they come from
a linear order with a greatest element, which is `Infinity`. The map itself is the plain dictionary
of the class here, without the size bound of `BoundedFifoMap` in its type.
-/

namespace Arald

open Foundations

namespace EvictionLaw

section
variable {κ α σ : Type*} [LinearOrder σ] [OrderTop σ]

/-- The scan for the lowest score. -/
def lowestOf (score : κ → α → σ) : Option κ → σ → List (κ × α) → Option κ
  | bestKey, _, [] => bestKey
  | bestKey, bestScore, (key, value) :: rest =>
    if score key value < bestScore then lowestOf score (some key) (score key value) rest
    else lowestOf score bestKey bestScore rest

def candidate (evictionScore : Option (κ → α → σ)) (map : OrderedMap κ α) : Option κ :=
  match evictionScore with
  | none => map.oldest?
  | some score => (lowestOf score none ⊤ map.entries).or map.oldest?

variable [DecidableEq κ]

/-- `set` of a map with the given bound, and the key that it returns. -/
def setRaw (maxSize : WithTop ℤ) (map : OrderedMap κ α) (evictionScore : Option (κ → α → σ)) (key : κ) (value : α) :
    OrderedMap κ α × Option κ :=
  if maxSize ≤ 0 then (map, some key)
  else if map.has key = false ∧ maxSize ≤ (((map.size : ℕ) : ℤ) : WithTop ℤ) then
    match candidate evictionScore map with
    | some victim => ((map.delete victim).set key value, some victim)
    | none => (map.set key value, none)
  else (map.set key value, none)

end

/-! ### Runs -/

inductive MapOp (κ α σ : Type*)
  | set (evictionScore : Option (κ → α → σ)) (key : κ) (value : α)
  | get (key : κ)
  | delete (key : κ)

/-- The map, and for each key the number of the operation that inserted it last. -/
structure MapRun (κ α : Type*) where
  map : OrderedMap κ α
  born : κ → ℕ
  ops : ℕ

section
variable {κ α σ : Type*} [LinearOrder σ] [OrderTop σ] [DecidableEq κ]

def MapOp.apply (maxSize : WithTop ℤ) (map : OrderedMap κ α) : MapOp κ α σ → OrderedMap κ α
  | .set score key value => (setRaw maxSize map score key value).1
  | .get _ => map
  | .delete key => map.delete key

/-- The key that the operation adds. -/
def MapOp.added (map : OrderedMap κ α) : MapOp κ α σ → Option κ
  | .set _ key _ => if map.has key then none else some key
  | _ => none

def MapRun.step (maxSize : WithTop ℤ) (s : MapRun κ α) (op : MapOp κ α σ) : MapRun κ α where
  map := op.apply maxSize s.map
  born key := if op.added s.map = some key then s.ops else s.born key
  ops := s.ops + 1

variable (κ α σ) in
/-- A map from its construction on. -/
def mapSystem (maxSize : WithTop ℤ) : System (MapRun κ α) (MapOp κ α σ) where
  Init s := s.map = .empty
  step s op := some (s.step maxSize op)

/-! ### The law -/

/-- Without a score function all entries count alike. -/
def scoreOf (evictionScore : Option (κ → α → σ)) (e : κ × α) : σ := evictionScore.elim ⊤ fun score => score e.1 e.2

/-- The entries after an operation, in the order of their insertion. -/
inductive Lawful (maxSize : WithTop ℤ) (s : MapRun κ α) : MapOp κ α σ → List (κ × α) → Prop
  | get (key : κ) : Lawful maxSize s (.get key) s.map.entries
  | delete (key : κ) : Lawful maxSize s (.delete key) (s.map.entries.filter fun e => e.1 ≠ key)
  | refuse (score : Option (κ → α → σ)) (key : κ) (value : α) (hmax : maxSize ≤ 0) :
      Lawful maxSize s (.set score key value) s.map.entries
  | update (score : Option (κ → α → σ)) {key : κ} (value : α) (hpos : 0 < maxSize) (hmem : key ∈ s.map.keys) :
      Lawful maxSize s (.set score key value) (s.map.entries.map fun e => if e.1 = key then (key, value) else e)
  | insert (score : Option (κ → α → σ)) {key : κ} (value : α) (hnew : key ∉ s.map.keys)
      (hroom : (((s.map.size : ℕ) : ℤ) : WithTop ℤ) < maxSize) :
      Lawful maxSize s (.set score key value) (s.map.entries ++ [(key, value)])
  /-- One entry makes room: of the lowest score, and of those the one inserted first. -/
  | evict {score : Option (κ → α → σ)} {key : κ} (value : α) {before after : List (κ × α)} {victim : κ × α}
      (hpos : 0 < maxSize) (hnew : key ∉ s.map.keys) (hfull : (((s.map.size : ℕ) : ℤ) : WithTop ℤ) = maxSize)
      (hsplit : s.map.entries = before ++ victim :: after)
      (hlowest : ∀ e ∈ s.map.entries, scoreOf score victim ≤ scoreOf score e)
      (hfirst : ∀ e ∈ s.map.entries, scoreOf score e = scoreOf score victim → s.born victim.1 ≤ s.born e.1) :
      Lawful maxSize s (.set score key value) (before ++ after ++ [(key, value)])

end

/-! ### The candidate -/

section
variable {κ α σ : Type*} [LinearOrder σ] {score : κ → α → σ} {best : Option κ} {bound : σ}
variable {l : List (κ × α)} {k : κ}

theorem lowestOf_none (h : lowestOf score best bound l = none) : best = none ∧ ∀ e ∈ l, bound ≤ score e.1 e.2 := by
  induction l generalizing best bound with
  | nil => exact ⟨h, by simp⟩
  | cons e rest ih =>
    obtain ⟨key, value⟩ := e
    rw [lowestOf] at h
    split_ifs at h with hlt
    · exact absurd (ih h).1 (Option.some_ne_none key)
    · obtain ⟨hbest, hrest⟩ := ih h
      refine ⟨hbest, fun e he => ?_⟩
      rcases List.mem_cons.mp he with rfl | he
      · exact not_lt.mp hlt
      · exact hrest e he

/-- The scan ends with the first of the entries with the lowest score, or with what it began with. -/
theorem lowestOf_some (h : lowestOf score best bound l = some k) :
    (best = some k ∧ ∀ e ∈ l, bound ≤ score e.1 e.2) ∨
      ∃ before v after, l = before ++ (k, v) :: after ∧ score k v < bound ∧
        (∀ e ∈ before, score k v < score e.1 e.2) ∧ ∀ e ∈ after, score k v ≤ score e.1 e.2 := by
  induction l generalizing best bound with
  | nil => exact .inl ⟨h, by simp⟩
  | cons e rest ih =>
    obtain ⟨key, value⟩ := e
    rw [lowestOf] at h
    split_ifs at h with hlt
    · rcases ih h with ⟨hkey, hrest⟩ | ⟨before, v, after, hl, hv, hbefore, hafter⟩
      · cases hkey
        exact .inr ⟨[], value, rest, rfl, hlt, by simp, hrest⟩
      · refine .inr ⟨(key, value) :: before, v, after, by rw [hl]; rfl, hv.trans hlt, fun e he => ?_, hafter⟩
        rcases List.mem_cons.mp he with rfl | he
        · exact hv
        · exact hbefore e he
    · rcases ih h with ⟨hkey, hrest⟩ | ⟨before, v, after, hl, hv, hbefore, hafter⟩
      · refine .inl ⟨hkey, fun e he => ?_⟩
        rcases List.mem_cons.mp he with rfl | he
        · exact not_lt.mp hlt
        · exact hrest e he
      · refine .inr ⟨(key, value) :: before, v, after, by rw [hl]; rfl, hv, fun e he => ?_, hafter⟩
        rcases List.mem_cons.mp he with rfl | he
        · exact hv.trans_le (not_lt.mp hlt)
        · exact hbefore e he

variable [OrderTop σ] {evictionScore : Option (κ → α → σ)} {map : OrderedMap κ α}

/-- The oldest entry is the candidate when no entry scores lower than any other. -/
theorem candidate_oldest (hall : ∀ e ∈ map.entries, scoreOf evictionScore e = ⊤) (h : map.oldest? = some k) :
    ∃ before v after, map.entries = before ++ (k, v) :: after ∧
      (∀ e ∈ before, scoreOf evictionScore (k, v) < scoreOf evictionScore e) ∧
      ∀ e ∈ after, scoreOf evictionScore (k, v) ≤ scoreOf evictionScore e := by
  rw [OrderedMap.oldest?, OrderedMap.keys] at h
  cases hentries : map.entries with
  | nil =>
    rw [hentries] at h
    cases h
  | cons e rest =>
    rw [hentries] at h
    cases h
    refine ⟨[], e.2, rest, rfl, by simp, fun other hother => ?_⟩
    rw [hall other (by rw [hentries]; exact List.mem_cons_of_mem _ hother)]
    exact le_top

/-- The candidate is the first of the entries with the lowest score. -/
theorem candidate_spec (h : candidate evictionScore map = some k) :
    ∃ before v after, map.entries = before ++ (k, v) :: after ∧
      (∀ e ∈ before, scoreOf evictionScore (k, v) < scoreOf evictionScore e) ∧
      ∀ e ∈ after, scoreOf evictionScore (k, v) ≤ scoreOf evictionScore e := by
  cases evictionScore with
  | none => exact candidate_oldest (fun _ _ => rfl) h
  | some score =>
    rcases Option.or_eq_some_iff.mp h with hscan | ⟨hnone, hold⟩
    · rcases lowestOf_some hscan with ⟨hbest, -⟩ | ⟨before, v, after, hl, -, hbefore, hafter⟩
      · cases hbest
      · exact ⟨before, v, after, hl, hbefore, hafter⟩
    · exact candidate_oldest (fun e he => top_le_iff.mp ((lowestOf_none hnone).2 e he)) hold

theorem candidate_isSome (evictionScore : Option (κ → α → σ))
    (hne : map.entries ≠ []) : ∃ k, candidate evictionScore map = some k := by
  obtain ⟨e, rest, hentries⟩ := List.exists_cons_of_ne_nil hne
  have hold : map.oldest? = some e.1 := by
    rw [OrderedMap.oldest?, OrderedMap.keys, hentries]
    rfl
  cases evictionScore with
  | none => exact ⟨e.1, hold⟩
  | some score =>
    rw [candidate, hold]
    cases lowestOf score none ⊤ map.entries with
    | none => exact ⟨e.1, rfl⟩
    | some k => exact ⟨k, rfl⟩

end

/-! ### Every operation obeys the law -/

section
variable {κ α σ : Type*} [LinearOrder σ] [OrderTop σ] {maxSize : WithTop ℤ} {s s' : MapRun κ α} {op : MapOp κ α σ}

/-- The bound, and the entries in the order of their insertion. -/
structure InOrder (maxSize : WithTop ℤ) (s : MapRun κ α) : Prop where
  bounded : (((s.map.size : ℕ) : ℤ) : WithTop ℤ) ≤ max 0 maxSize
  born : s.map.keys.Pairwise fun k k' => s.born k < s.born k'
  past : ∀ k ∈ s.map.keys, s.born k < s.ops

theorem size_of_full (h : InOrder maxSize s) (hpos : 0 < maxSize)
    (hfull : maxSize ≤ (((s.map.size : ℕ) : ℤ) : WithTop ℤ)) : (((s.map.size : ℕ) : ℤ) : WithTop ℤ) = maxSize :=
  le_antisymm ((max_eq_right hpos.le) ▸ h.bounded) hfull

/-- The victim is first among the entries with its score. -/
theorem born_victim_le (h : InOrder maxSize s) {score : Option (κ → α → σ)} {before after : List (κ × α)}
    {victim : κ × α} (hsplit : s.map.entries = before ++ victim :: after)
    (hbefore : ∀ e ∈ before, scoreOf score victim < scoreOf score e) :
    ∀ e ∈ s.map.entries, scoreOf score e = scoreOf score victim → s.born victim.1 ≤ s.born e.1 := by
  have hborn := h.born
  rw [OrderedMap.keys, hsplit, List.map_append, List.map_cons, List.pairwise_append] at hborn
  intro e he hscore
  rw [hsplit] at he
  rcases List.mem_append.mp he with he | he
  · exact absurd hscore (hbefore e he).ne'
  · rcases List.mem_cons.mp he with rfl | he
    · exact le_rfl
    · exact ((List.pairwise_cons.mp hborn.2.1).1 e.1 (List.mem_map_of_mem he)).le

variable [DecidableEq κ]

theorem setEntries_eq_map {key : κ} {value : α} {l : List (κ × α)} (hnodup : (l.map Prod.fst).Nodup)
    (hmem : key ∈ l.map Prod.fst) :
    OrderedMap.setEntries key value l = l.map fun e => if e.1 = key then (key, value) else e := by
  induction l with
  | nil => simp at hmem
  | cons e rest ih =>
    rw [List.map_cons, List.nodup_cons] at hnodup
    rw [OrderedMap.setEntries, List.map_cons]
    by_cases hkey : e.1 = key
    · have hrest : ∀ other ∈ rest, (if other.1 = key then (key, value) else other) = other := by
        intro other hother
        apply if_neg
        rintro rfl
        exact hnodup.1 (hkey ▸ List.mem_map_of_mem hother)
      rw [if_pos hkey, if_pos hkey, List.map_congr_left hrest, List.map_id']
    · rw [if_neg hkey, if_neg hkey, ih hnodup.2 ((List.mem_cons.mp hmem).resolve_left (Ne.symm hkey))]

theorem lawful_set (h : InOrder maxSize s) (score : Option (κ → α → σ)) (key : κ) (value : α) :
    Lawful maxSize s (.set score key value) (setRaw maxSize s.map score key value).1.entries := by
  rw [setRaw]
  by_cases hmax : maxSize ≤ 0
  · rw [if_pos hmax]
    exact .refuse score key value hmax
  have hpos : 0 < maxSize := not_le.mp hmax
  rw [if_neg hmax]
  by_cases hmem : key ∈ s.map.keys
  · have hhas : ¬(s.map.has key = false ∧ maxSize ≤ (((s.map.size : ℕ) : ℤ) : WithTop ℤ)) := by
      rw [OrderedMap.has_iff.mpr hmem]
      exact fun hboth => Bool.noConfusion hboth.1
    rw [if_neg hhas]
    change Lawful maxSize s _ (OrderedMap.setEntries key value s.map.entries)
    rw [setEntries_eq_map s.map.nodup hmem]
    exact .update score value hpos hmem
  have hhas : s.map.has key = false := by
    rw [Bool.eq_false_iff]
    exact fun htrue => hmem (OrderedMap.has_iff.mp htrue)
  by_cases hfull : maxSize ≤ (((s.map.size : ℕ) : ℤ) : WithTop ℤ)
  · have hne : s.map.entries ≠ [] := by
      intro hnil
      have hzero : s.map.size = 0 := by rw [OrderedMap.size, hnil, List.length_nil]
      rw [hzero] at hfull
      exact hmax hfull
    obtain ⟨victim, hvictim⟩ := candidate_isSome score hne
    obtain ⟨before, v, after, hsplit, hbefore, hafter⟩ := candidate_spec hvictim
    have hnew : key ∉ (s.map.delete victim).keys := fun hk => hmem (OrderedMap.mem_keys_delete.mp hk).1
    have hentries : ((s.map.delete victim).set key value).entries = before ++ after ++ [(key, value)] := by
      change OrderedMap.setEntries key value (s.map.delete victim).entries = _
      rw [OrderedMap.setEntries_of_notMem _ _ _ hnew, OrderedMap.entries_delete_of_split hsplit]
    rw [if_pos ⟨hhas, hfull⟩, hvictim]
    dsimp only
    rw [hentries]
    refine .evict value hpos hmem (size_of_full h hpos hfull) hsplit ?_ (born_victim_le h hsplit hbefore)
    intro e he
    rw [hsplit] at he
    rcases List.mem_append.mp he with he | he
    · exact (hbefore e he).le
    · rcases List.mem_cons.mp he with rfl | he
      · exact le_rfl
      · exact hafter e he
  · rw [if_neg fun hboth => hfull hboth.2]
    change Lawful maxSize s _ (OrderedMap.setEntries key value s.map.entries)
    rw [OrderedMap.setEntries_of_notMem _ _ _ hmem]
    exact .insert score value hmem (not_le.mp hfull)

theorem lawful_apply (h : InOrder maxSize s) (op : MapOp κ α σ) : Lawful maxSize s op (op.apply maxSize s.map).entries := by
  cases op with
  | set score key value => exact lawful_set h score key value
  | get key => exact .get key
  | delete key => exact .delete key

/-! ### Runs obey the law -/

theorem born_step (maxSize : WithTop ℤ) (op : MapOp κ α σ) {k : κ} (hk : k ∈ s.map.keys) :
    (s.step maxSize op).born k = s.born k := by
  apply if_neg
  cases op with
  | set score key value =>
    rw [MapOp.added]
    split_ifs with hhas
    · exact not_false
    · rintro ⟨rfl⟩
      exact hhas (OrderedMap.has_iff.mpr hk)
  | get key => exact (Option.some_ne_none k).symm
  | delete key => exact (Option.some_ne_none k).symm

/-- Entries that stay keep their order, and a new one comes last. -/
theorem InOrder.step (h : InOrder maxSize s) (op : MapOp κ α σ) : InOrder maxSize (s.step maxSize op) := by
  have hlaw := lawful_apply h op
  have hsub : ∀ keys : List κ, keys.Sublist s.map.keys →
      keys.Pairwise (fun k k' => (s.step maxSize op).born k < (s.step maxSize op).born k') ∧
        ∀ k ∈ keys, (s.step maxSize op).born k < s.ops := by
    intro keys hkeys
    constructor
    · apply (h.born.sublist hkeys).imp_of_mem
      intro k k' hk hk' hlt
      rwa [born_step maxSize op (hkeys.subset hk), born_step maxSize op (hkeys.subset hk')]
    · intro k hk
      rw [born_step maxSize op (hkeys.subset hk)]
      exact h.past k (hkeys.subset hk)
  have hkept : (s.step maxSize op).map.keys.Sublist s.map.keys → InOrder maxSize (s.step maxSize op) := by
    intro hkeys
    have hsize : (s.step maxSize op).map.size ≤ s.map.size := by
      rw [← OrderedMap.length_keys, ← OrderedMap.length_keys]
      exact hkeys.length_le
    refine ⟨le_trans ?_ h.bounded, (hsub _ hkeys).1, fun k hk => Nat.lt_succ_of_lt ((hsub _ hkeys).2 k hk)⟩
    exact WithTop.coe_le_coe.mpr (by exact_mod_cast hsize)
  have hgrown : ∀ (key : κ) (value : α) (kept : List (κ × α)), kept.Sublist s.map.entries → key ∉ s.map.keys →
      (s.step maxSize op).map.entries = kept ++ [(key, value)] → op.added s.map = some key →
      ((((kept.length + 1 : ℕ) : ℤ) : WithTop ℤ) ≤ max 0 maxSize) → InOrder maxSize (s.step maxSize op) := by
    intro key value kept hkept hnew hentries hadded hsize
    have hkeys : (s.step maxSize op).map.keys = kept.map Prod.fst ++ [key] := by
      rw [OrderedMap.keys, hentries, List.map_append]
      rfl
    have hborn : (s.step maxSize op).born key = s.ops := if_pos hadded
    obtain ⟨hpair, hpast⟩ := hsub _ (hkept.map Prod.fst)
    refine ⟨?_, ?_, ?_⟩
    · rwa [OrderedMap.size, hentries, List.length_append]
    · rw [hkeys, List.pairwise_append]
      refine ⟨hpair, List.pairwise_singleton _ _, fun k hk k' hk' => ?_⟩
      rw [List.mem_singleton.mp hk', hborn]
      exact hpast k hk
    · intro k hk
      rw [hkeys] at hk
      rcases List.mem_append.mp hk with hk | hk
      · exact Nat.lt_succ_of_lt (hpast k hk)
      · rw [List.mem_singleton.mp hk, hborn]
        exact Nat.lt_succ_self s.ops
  have hadded : ∀ (score : Option (κ → α → σ)) (key : κ) (value : α), key ∉ s.map.keys →
      (MapOp.set score key value).added s.map = some key := by
    intro score key value hnew
    exact if_neg fun hhas => hnew (OrderedMap.has_iff.mp hhas)
  have hlaw' : Lawful maxSize s op (s.step maxSize op).map.entries := hlaw
  generalize hentries : (s.step maxSize op).map.entries = entries at hlaw'
  cases hlaw' with
  | get key => exact hkept (by rw [OrderedMap.keys, hentries]; exact List.Sublist.refl _)
  | delete key => exact hkept (by rw [OrderedMap.keys, hentries]; exact List.filter_sublist.map _)
  | refuse score key value hmax => exact hkept (by rw [OrderedMap.keys, hentries]; exact List.Sublist.refl _)
  | update score value hpos hmem =>
    rename_i key
    apply hkept
    have hkeys : (s.step maxSize (.set score key value)).map.keys = s.map.keys := by
      rw [OrderedMap.keys, hentries, List.map_map]
      apply List.map_congr_left
      intro e _
      by_cases hkey : e.1 = key
      · exact (congrArg Prod.fst (if_pos hkey)).trans hkey.symm
      · exact congrArg Prod.fst (if_neg hkey)
    rw [hkeys]
  | insert score value hnew hroom =>
    refine hgrown _ value _ (List.Sublist.refl _) hnew hentries (hadded score _ value hnew) ?_
    exact (BoundedFifoMap.succ_cast_le_of_lt hroom).trans (le_max_right _ _)
  | evict value hpos hnew hfull hsplit hlowest hfirst =>
    rename_i score key before after victim
    have hsub : (before ++ after).Sublist s.map.entries := by
      rw [hsplit]
      exact List.Sublist.append_left (List.sublist_cons_self _ _) _
    refine hgrown _ value _ hsub hnew hentries (hadded score _ value hnew) ?_
    have hlength : (before ++ after).length + 1 = s.map.size := by
      rw [OrderedMap.size, hsplit, List.length_append, List.length_append, List.length_cons, Nat.add_assoc]
    rw [hlength]
    exact h.bounded

theorem inOrder_of_reachable (h : (mapSystem κ α σ maxSize).Reachable s) : InOrder maxSize s := by
  apply h.invariant
  · intro s hinit
    have hmap : s.map = .empty := hinit
    refine ⟨?_, ?_, ?_⟩
    · rw [hmap]
      exact le_max_left _ _
    · rw [hmap]
      exact List.Pairwise.nil
    · rw [hmap]
      exact fun k hk => absurd hk List.not_mem_nil
  · rintro s op s' hs - ⟨rfl⟩
    exact hs.step op

/-- The law of every operation of every run. -/
theorem eviction_law (h : (mapSystem κ α σ maxSize).Reachable s)
    (hstep : (mapSystem κ α σ maxSize).step s op = some s') :
    (((s'.map.size : ℕ) : ℤ) : WithTop ℤ) ≤ max 0 maxSize ∧ (maxSize ≤ 0 → s'.map.entries = []) ∧
      s'.map.keys.Pairwise (fun k k' => s'.born k < s'.born k') ∧ Lawful maxSize s op s'.map.entries := by
  cases hstep
  have hs := inOrder_of_reachable h
  have hnext := hs.step op
  refine ⟨hnext.bounded, fun hmax => ?_, hnext.born, lawful_apply hs op⟩
  have hsize := hnext.bounded
  rw [max_eq_left hmax] at hsize
  have hle : (((s.step maxSize op).map.size : ℕ) : ℤ) ≤ 0 := WithTop.coe_le_coe.mp hsize
  exact List.eq_nil_of_length_eq_zero (by exact_mod_cast le_antisymm hle (Int.natCast_nonneg _))

end

/-- Three keys and room for two. The second insertion has the lower score, so it makes room for the third. -/
theorem eviction_law_three :
    let score : Option (String → ℕ → WithTop ℤ) := some fun _ value => ((-value : ℤ) : WithTop ℤ)
    let ops : List (MapOp String ℕ (WithTop ℤ)) := [.set score "a" 1, .set score "b" 2]
    let s := ops.foldl (MapRun.step 2) ⟨.empty, fun _ => 0, 0⟩
    let s' := s.step 2 (.set score "c" 3)
    (mapSystem String ℕ (WithTop ℤ) 2).Reachable s ∧ s'.map.entries = [("a", 1), ("c", 3)] ∧
      Lawful 2 s (.set score "c" 3) s'.map.entries := by
  intro score ops s s'
  have hinit : (mapSystem String ℕ (WithTop ℤ) 2).Init ⟨.empty, fun _ => 0, 0⟩ := rfl
  have hrun : (mapSystem String ℕ (WithTop ℤ) 2).run ⟨.empty, fun _ => 0, 0⟩ ops = some s := rfl
  have hstep : (mapSystem String ℕ (WithTop ℤ) 2).step s (.set score "c" 3) = some s' := rfl
  have hreach := System.reachable_of_run hinit hrun
  have hlaw := eviction_law hreach hstep
  exact ⟨hreach, by decide, hlaw.2.2.2⟩

/-! ### The map of the stores -/

section
variable {κ α : Type*}

theorem lowestScored_eq_lowestOf (score : BoundedFifoMap.EvictionScore κ α) (best : Option κ) (bound : WithTop ℤ)
    (l : List (κ × α)) : BoundedFifoMap.lowestScored score best bound l = lowestOf score best bound l := by
  induction l generalizing best bound with
  | nil => rfl
  | cons e rest ih =>
    rw [BoundedFifoMap.lowestScored, lowestOf, ih, ih]
    split_ifs <;> rfl

/-- The bounded map of the stores is this one, with the bound in its type. -/
theorem map_set_eq [DecidableEq κ] (m : BoundedFifoMap κ α) (score : Option (BoundedFifoMap.EvictionScore κ α)) (key : κ)
    (value : α) : (m.set score key value).map = (setRaw m.maxSize m.map score key value).1 := by
  rw [setRaw]
  by_cases hmax : m.maxSize ≤ 0
  · rw [if_pos hmax, BoundedFifoMap.set, dif_pos hmax]
  have hpick : m.pickEvictionCandidate score = candidate score m.map := by
    cases score with
    | none => rfl
    | some score => rw [BoundedFifoMap.pickEvictionCandidate, lowestScored_eq_lowestOf, candidate]
  have hset : (m.set score key value).map = (m.makeRoom score key).map.set key value := by
    rw [BoundedFifoMap.set, dif_neg hmax]
  rw [if_neg hmax, hset]
  unfold BoundedFifoMap.makeRoom BoundedFifoMap.victim?
  rw [hpick]
  by_cases hroom : m.map.has key = false ∧ m.maxSize ≤ (((m.map.size : ℕ) : ℤ) : WithTop ℤ)
  · have hfull : (!m.has key && m.full) = true := by
      rw [BoundedFifoMap.has, hroom.1]
      exact decide_eq_true hroom.2
    rw [if_pos hroom, if_pos hfull]
    cases candidate score m.map <;> rfl
  · have hfits : ¬(!m.has key && m.full) = true := by
      intro hfull
      obtain ⟨hhas, hsize⟩ := Bool.and_eq_true_iff.mp hfull
      exact hroom ⟨Bool.not_eq_true'  _ ▸ hhas, of_decide_eq_true hsize⟩
    rw [if_neg hroom, if_neg hfits]

end

end EvictionLaw

end Arald
