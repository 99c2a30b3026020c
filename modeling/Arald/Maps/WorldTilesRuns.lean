import Arald.Foundations.Tables
import Arald.Maps.WorldTiles

/-!
# Loads of world tiles

A call of `ensure` that ends well leaves every tile it asked for in memory, whatever other calls,
failures and evictions came between: what it asks for is kept from its start to its end, loads in
flight are shared, and a worker waits for a load until its tile is there or its failure is noted.
-/

namespace Arald

open Foundations

variable {maxTiles id : ℕ} {s s' : BrowserTileStore} {c c' : EnsureCall} {t : TileIndex}

/-- The workers after one of them has gone on: this one as it is now, and the others. -/
theorem mem_set_iff {ws : List TileWorker} {i : ℕ} {w : TileWorker} (h : ws[i]? = some w) (new : TileWorker)
    {w' : TileWorker} : w' ∈ ws.set i new ↔ w' = new ∨ w' ∈ ws.eraseIdx i := by
  have hi := (List.getElem?_eq_some_iff.mp h).1
  rw [List.set_eq_take_append_cons_drop, if_pos hi, List.eraseIdx_eq_take_drop_succ, List.mem_append,
    List.mem_append, List.mem_cons]
  exact or_left_comm

theorem set_of_getElem? {ws : List TileWorker} {i : ℕ} {w : TileWorker} (h : ws[i]? = some w) :
    ws.set i w = ws := by
  obtain ⟨hi, rfl⟩ := List.getElem?_eq_some_iff.mp h
  exact List.set_getElem_self hi

theorem hasReturned_iff {w : TileWorker} : w.hasReturned = true ↔ w = .returned := by
  cases w <;> simp [TileWorker.hasReturned]

theorem eq_of_getElem?_concat {calls : List EnsureCall} (hid : calls.length ≤ id)
    (h : (calls ++ [c])[id]? = some c') : c = c' := by
  have hlt := (List.getElem?_eq_some_iff.mp h).1
  rw [List.length_append, List.length_singleton] at hlt
  obtain rfl := le_antisymm hid (Nat.lt_succ_iff.mp hlt)
  rw [List.getElem?_concat_length] at h
  exact Option.some.inj h

namespace BrowserTileStore

/-! ### The cap -/

section
variable {isKept : TileIndex → Bool} {keys : List TileIndex} {tiles : OrderedMap TileIndex GeoTile}

theorem get?_of_get?_trimLoop {g : GeoTile} (h : (trimLoop maxTiles isKept tiles keys).get? t = some g) :
    tiles.get? t = some g := by
  induction keys generalizing tiles with
  | nil => exact h
  | cons k keys ih =>
    rw [trimLoop] at h
    split_ifs at h
    · exact h
    · exact ih h
    · have hdelete := ih h
      rw [OrderedMap.get?_delete] at hdelete
      split_ifs at hdelete
      exact hdelete

/-- The loop spares what is kept. -/
theorem get?_trimLoop {g : GeoTile} (hkept : isKept t = true) (h : tiles.get? t = some g) :
    (trimLoop maxTiles isKept tiles keys).get? t = some g := by
  induction keys generalizing tiles with
  | nil => exact h
  | cons k keys ih =>
    rw [trimLoop]
    split_ifs with hsize hk
    · exact h
    · exact ih h
    · refine ih ?_
      rw [OrderedMap.get?_delete_of_ne]
      · exact h
      · rintro rfl
        exact hk hkept

/-- The loop stops under the cap, or when only kept tiles are left. -/
theorem trimLoop_size (h : ∀ k ∈ tiles.keys, k ∈ keys ∨ isKept k = true) :
    (trimLoop maxTiles isKept tiles keys).size ≤ maxTiles ∨
      ∀ k ∈ (trimLoop maxTiles isKept tiles keys).keys, isKept k = true := by
  induction keys generalizing tiles with
  | nil => exact Or.inr fun k hk => (h k hk).resolve_left List.not_mem_nil
  | cons k keys ih =>
    rw [trimLoop]
    split_ifs with hsize hk
    · exact Or.inl hsize
    · refine ih fun k' hk' => ?_
      rcases h k' hk' with hmem | hkept
      · rcases List.mem_cons.mp hmem with rfl | hmem
        · exact Or.inr hk
        · exact Or.inl hmem
      · exact Or.inr hkept
    · refine ih fun k' hk' => ?_
      obtain ⟨hmem, hne⟩ := OrderedMap.mem_keys_delete.mp hk'
      rcases h k' hmem with hmem | hkept
      · exact Or.inl ((List.mem_cons.mp hmem).resolve_left hne)
      · exact Or.inr hkept

end

theorem trim_eq (s : BrowserTileStore) (maxTiles : ℕ) :
    s.trim maxTiles = { s with
      tiles := if s.tiles.size ≤ maxTiles then s.tiles
        else trimLoop maxTiles s.isKept s.tiles s.tiles.keys } := by
  unfold trim
  split_ifs
  · rfl
  · rfl

theorem get?_of_get?_trim {g : GeoTile} (h : (s.trim maxTiles).tiles.get? t = some g) :
    s.tiles.get? t = some g := by
  rw [trim_eq] at h
  dsimp only at h
  split_ifs at h
  · exact h
  · exact get?_of_get?_trimLoop h

theorem get?_trim {g : GeoTile} (hkept : s.isKept t = true) (h : s.tiles.get? t = some g) :
    (s.trim maxTiles).tiles.get? t = some g := by
  rw [trim_eq]
  dsimp only
  split_ifs
  · exact h
  · exact get?_trimLoop hkept h

theorem trim_size (s : BrowserTileStore) (maxTiles : ℕ) :
    (s.trim maxTiles).tiles.size ≤ maxTiles ∨ ∀ k ∈ (s.trim maxTiles).tiles.keys, s.isKept k = true := by
  rw [trim_eq]
  dsimp only
  split_ifs with hsize
  · exact Or.inl hsize
  · exact trimLoop_size fun k hk => Or.inl hk

theorem isKept_of_activeKeeps {keep : List TileIndex} (h : s.activeKeeps.get? id = some keep)
    (ht : t ∈ keep) : s.isKept t = true := by
  have hmem : keep ∈ s.activeKeeps.values := OrderedMap.mem_values.mpr ⟨id, OrderedMap.get?_eq_some.mp h⟩
  have hany : (s.activeKeeps.values.any fun keep => keep.contains t) = true :=
    List.any_eq_true.mpr ⟨keep, hmem, List.contains_iff_mem.mpr ht⟩
  rw [isKept, hany, Bool.or_true]

theorem recordFailure_size (h : s.failed.size ≤ maxFailed) (t : TileIndex) (error : TileLoadError) :
    (s.recordFailure t error).size ≤ maxFailed := by
  have hset : (s.failed.set t (s.clock, error)).size ≤ s.failed.size + 1 := by
    by_cases hmem : t ∈ s.failed.keys
    · rw [OrderedMap.size_set_of_mem _ hmem]
      exact Nat.le_succ _
    · rw [OrderedMap.size_set_of_notMem _ hmem]
  unfold recordFailure
  dsimp only
  split_ifs with hfull
  · split
    · next k hk =>
      have hdelete := OrderedMap.size_delete_of_mem (OrderedMap.mem_keys_of_oldest? hk)
      omega
    · next hnone =>
      rw [OrderedMap.oldest?_eq_none.mp hnone]
      exact Nat.zero_le _
  · exact not_lt.mp hfull

end BrowserTileStore

/-! ### The invariant -/

/-- What is known of a call: what it asked for is kept while it is in progress, a worker that awaits
a load has the tile when the load is good, and every tile is there, queued, awaited, or the call
will not end well. -/
structure EnsureCall.Sound (keeps : OrderedMap ℕ (List TileIndex)) (fetches : List TileFetch)
    (tiles : OrderedMap TileIndex GeoTile) (id : ℕ) (c : EnsureCall) : Prop where
  kept : keeps.get? id = if c.outcome.isNone then some c.wanted else none
  closed : c.outcome ≠ none → ∀ w ∈ c.workers, w = .returned
  queue_subset : c.queue ⊆ c.wanted
  loading : ∀ (f : ℕ), TileWorker.loading f ∈ c.workers → ∃ fetch, fetches[f]? = some fetch ∧
    fetch.tile ∈ c.wanted ∧ (fetch.result = some (.ok ()) → tiles.has fetch.tile = true)
  returned : TileWorker.returned ∈ c.workers → c.stale = false → c.queue = []
  accounted : c.outcome = none → c.stale = false → c.firstError = none → ∀ t ∈ c.wanted,
    tiles.has t = true ∨ t ∈ c.queue ∨ (∃ error, TileWorker.refused error ∈ c.workers) ∨
      ∃ (f : ℕ) (fetch : TileFetch), TileWorker.loading f ∈ c.workers ∧ fetches[f]? = some fetch ∧
        fetch.tile = t

/-- A load is in flight until its end is noted, and some call in progress awaits it. -/
structure BrowserTileStore.Sound (s : BrowserTileStore) : Prop where
  inflight : ∀ (t : TileIndex) (f : ℕ), s.inflight.get? t = some f →
    ∃ fetch, s.fetches[f]? = some fetch ∧ fetch.tile = t ∧ fetch.forgotten = false
  flying : ∀ (f : ℕ) (fetch : TileFetch), s.fetches[f]? = some fetch → fetch.forgotten = false →
    s.inflight.get? fetch.tile = some f
  settled : ∀ (f : ℕ) (fetch : TileFetch), s.fetches[f]? = some fetch → fetch.forgotten = true →
    fetch.result.isSome = true
  awaited : ∀ (f : ℕ) (fetch : TileFetch), s.fetches[f]? = some fetch → fetch.forgotten = false →
    ∃ (id : ℕ) (c : EnsureCall), s.calls[id]? = some c ∧ TileWorker.loading f ∈ c.workers
  own : ∀ t g, s.tiles.get? t = some g → g.toTileIndex = t
  failed_le : s.failed.size ≤ maxFailed
  keeps_lt : ∀ id keep, s.activeKeeps.get? id = some keep → id < s.calls.length
  calls : ∀ (id : ℕ) (c : EnsureCall), s.calls[id]? = some c → c.Sound s.activeKeeps s.fetches s.tiles id

namespace BrowserTileStore

theorem has_iff : s.has t = true ↔ ∃ g, s.tiles.get? t = some g := by
  rw [has, OrderedMap.has, Option.isSome_iff_exists]

/-- A call with a worker that has not returned is in progress. -/
theorem open_of_loading (h : c.Sound s.activeKeeps s.fetches s.tiles id) {f : ℕ} (hf : TileWorker.loading f ∈ c.workers) :
    c.outcome = none := by
  by_contra hover
  cases h.closed hover _ hf

/-- A good load that is still in flight has left its tile. -/
theorem Sound.has_of_flying (h : s.Sound) {f : ℕ} {fetch : TileFetch} (hf : s.fetches[f]? = some fetch)
    (hflying : fetch.forgotten = false) (hgood : fetch.result = some (.ok ())) :
    s.has fetch.tile = true := by
  obtain ⟨id, c, hc, hmem⟩ := h.awaited f fetch hf hflying
  obtain ⟨fetch', hf', -, hhas⟩ := (h.calls id c hc).loading f hmem
  rw [hf] at hf'
  obtain rfl := Option.some.inj hf'
  exact hhas hgood

/-! ### Calls change -/

/-- A call changes and goes on to await the loads in flight that it awaited. -/
theorem Sound.setCall {calls : List EnsureCall} (h : ({ s with calls } : BrowserTileStore).Sound)
    (hc : calls[id]? = some c) (hc' : c'.Sound s.activeKeeps s.fetches s.tiles id)
    (hawaits : ∀ (f : ℕ) (fetch : TileFetch), TileWorker.loading f ∈ c.workers → s.fetches[f]? = some fetch →
      fetch.forgotten = false → TileWorker.loading f ∈ c'.workers) :
    ({ s with calls := calls.set id c' } : BrowserTileStore).Sound := by
  refine ⟨h.inflight, h.flying, h.settled, fun f fetch hf hflying => ?_, h.own, h.failed_le,
    fun id' keep hkeep => ?_, ?_⟩
  · obtain ⟨id', d, hd, hmem⟩ := h.awaited f fetch hf hflying
    by_cases hid : id' = id
    · refine ⟨id, c', ?_, ?_⟩
      · change (calls.set id c')[id]? = some c'
        rw [getElem?_set_of_some hc, if_pos rfl]
      · change calls[id']? = some d at hd
        rw [hid, hc] at hd
        obtain rfl := Option.some.inj hd
        exact hawaits f fetch hmem hf hflying
    · refine ⟨id', d, ?_, hmem⟩
      change (calls.set id c')[id']? = some d
      rw [getElem?_set_of_some hc, if_neg hid]
      exact hd
  · change id' < (calls.set id c').length
    rw [List.length_set]
    exact h.keeps_lt id' keep hkeep
  · exact (forall_set hc (P := fun i d => EnsureCall.Sound s.activeKeeps s.fetches s.tiles i d)).mpr
      ⟨hc', fun i d _ hd => h.calls i d hd⟩

/-! ### Workers -/

theorem turn_calls (s : BrowserTileStore) (c : EnsureCall) (stale : Bool) :
    (s.turn c stale).1.calls = s.calls := by
  unfold turn load join
  repeat' split
  all_goals rfl

theorem turn_tiles (s : BrowserTileStore) (c : EnsureCall) (stale : Bool) :
    (s.turn c stale).1.tiles = s.tiles := by
  unfold turn load join
  repeat' split
  all_goals rfl

theorem turn_workers (s : BrowserTileStore) (c : EnsureCall) (stale : Bool) :
    (s.turn c stale).2.1.workers = c.workers := by
  unfold turn
  repeat' split
  all_goals rfl

theorem turn_outcome (s : BrowserTileStore) (c : EnsureCall) (stale : Bool) :
    (s.turn c stale).2.1.outcome = c.outcome := by
  unfold turn
  repeat' split
  all_goals rfl

theorem start_calls (stale : Bool) (n : ℕ) (s : BrowserTileStore) (c : EnsureCall) :
    (start stale n s c).1.calls = s.calls := by
  induction n generalizing s c with
  | zero => rfl
  | succ n ih => exact (ih _ _).trans (turn_calls s c stale)

theorem start_tiles (stale : Bool) (n : ℕ) (s : BrowserTileStore) (c : EnsureCall) :
    (start stale n s c).1.tiles = s.tiles := by
  induction n generalizing s c with
  | zero => rfl
  | succ n ih => exact (ih _ _).trans (turn_tiles s c stale)

theorem start_outcome (stale : Bool) (n : ℕ) (s : BrowserTileStore) (c : EnsureCall) :
    (start stale n s c).2.outcome = c.outcome := by
  induction n generalizing s c with
  | zero => rfl
  | succ n ih => exact (ih _ _).trans (turn_outcome s c stale)

end BrowserTileStore

section
variable {keeps : OrderedMap ℕ (List TileIndex)} {fetches : List TileFetch}
  {tiles : OrderedMap TileIndex GeoTile} {ws : List TileWorker} {queue : List TileIndex}

/-- One more load changes nothing for the calls. -/
theorem EnsureCall.Sound.concat (h : c.Sound keeps fetches tiles id) (fetch : TileFetch) :
    c.Sound keeps (fetches ++ [fetch]) tiles id := by
  have hkeep : ∀ {f : ℕ} {F : TileFetch}, fetches[f]? = some F → (fetches ++ [fetch])[f]? = some F := by
    intro f F hF
    rw [List.getElem?_append_left (List.getElem?_eq_some_iff.mp hF).1]
    exact hF
  refine ⟨h.kept, h.closed, h.queue_subset, fun f hf => ?_, h.returned,
    fun hopen hstale herror t ht => ?_⟩
  · obtain ⟨F, hF, hwanted, hgood⟩ := h.loading f hf
    exact ⟨F, hkeep hF, hwanted, hgood⟩
  · rcases h.accounted hopen hstale herror t ht with hhas | hqueue | hrefused | ⟨f, F, hmem, hF, htile⟩
    · exact Or.inl hhas
    · exact Or.inr (Or.inl hqueue)
    · exact Or.inr (Or.inr (Or.inl hrefused))
    · exact Or.inr (Or.inr (Or.inr ⟨f, F, hmem, hkeep hF, htile⟩))

theorem EnsureCall.Sound.of_keeps {keeps' : OrderedMap ℕ (List TileIndex)} (h : c.Sound keeps fetches tiles id)
    (hsame : keeps'.get? id = keeps.get? id) : c.Sound keeps' fetches tiles id :=
  ⟨hsame.trans h.kept, h.closed, h.queue_subset, h.loading, h.returned, h.accounted⟩

/-- A worker returns, because the queue is empty or the call is stale. -/
theorem EnsureCall.Sound.leaves (h : c.Sound keeps fetches tiles id) (hopen : c.outcome = none)
    (hws : ∀ w, w ∈ ws ↔ w = .returned ∨ w ∈ c.workers) {stale : Bool}
    (hend : stale = false → c.stale = false ∧ c.queue = []) (hqueue : queue ⊆ c.queue) :
    ({ c with queue, stale, workers := ws } : EnsureCall).Sound keeps fetches tiles id := by
  have hmem : ∀ f, TileWorker.loading f ∈ ws → TileWorker.loading f ∈ c.workers := by
    intro f hf
    rcases (hws _).mp hf with heq | hf
    · cases heq
    · exact hf
  refine ⟨h.kept, fun hover => absurd hopen hover, fun t ht => h.queue_subset (hqueue ht),
    fun f hf => h.loading f (hmem f hf), fun _ hstale => ?_, fun _ hstale herror t ht => ?_⟩
  · have hempty := (hend hstale).2
    rw [hempty] at hqueue
    exact List.subset_nil.mp hqueue
  · obtain ⟨hcalm, hempty⟩ := hend hstale
    rcases h.accounted hopen hcalm herror t ht with hhas | hin | ⟨e, he⟩ | ⟨f, F, hf, hF, htile⟩
    · exact Or.inl hhas
    · rw [hempty] at hin
      cases hin
    · exact Or.inr (Or.inr (Or.inl ⟨e, (hws _).mpr (Or.inr he)⟩))
    · exact Or.inr (Or.inr (Or.inr ⟨f, F, (hws _).mpr (Or.inr hf), hF, htile⟩))

/-- A worker takes the first tile of the queue, and awaits its load or is refused. -/
theorem EnsureCall.Sound.takes (h : c.Sound keeps fetches tiles id) (hopen : c.outcome = none)
    (hqueue : c.queue = t :: queue) {w : TileWorker} (hws : ∀ w', w' ∈ ws ↔ w' = w ∨ w' ∈ c.workers)
    (hw : (∃ error, w = .refused error) ∨ ∃ (f : ℕ) (F : TileFetch), w = .loading f ∧
      fetches[f]? = some F ∧ F.tile = t ∧ (F.result = some (.ok ()) → tiles.has t = true)) :
    ({ c with queue, workers := ws } : EnsureCall).Sound keeps fetches tiles id := by
  have hnew : w ∈ ws := (hws w).mpr (Or.inl rfl)
  have hwanted : t ∈ c.wanted := h.queue_subset (hqueue ▸ List.mem_cons_self)
  refine ⟨h.kept, fun hover => absurd hopen hover,
    fun u hu => h.queue_subset (hqueue ▸ List.mem_cons_of_mem t hu), fun f hf => ?_,
    fun hreturned hstale => ?_, fun _ hstale herror u hu => ?_⟩
  · rcases (hws _).mp hf with heq | hf
    · rcases hw with ⟨error, rfl⟩ | ⟨f', F, rfl, hF, rfl, hgood⟩
      · cases heq
      · obtain rfl := TileWorker.loading.inj heq
        exact ⟨F, hF, hwanted, hgood⟩
    · exact h.loading f hf
  · rcases (hws _).mp hreturned with heq | hreturned
    · rcases hw with ⟨error, rfl⟩ | ⟨f', F, rfl, -⟩
      · cases heq
      · cases heq
    · have hempty := h.returned hreturned hstale
      rw [hqueue] at hempty
      cases hempty
  · rcases h.accounted hopen hstale herror u hu with hhas | hin | ⟨e, he⟩ | ⟨f, F, hf, hF, htile⟩
    · exact Or.inl hhas
    · rw [hqueue] at hin
      rcases List.mem_cons.mp hin with rfl | hin
      · rcases hw with ⟨error, rfl⟩ | ⟨f, F, rfl, hF, htile, -⟩
        · exact Or.inr (Or.inr (Or.inl ⟨error, hnew⟩))
        · exact Or.inr (Or.inr (Or.inr ⟨f, F, hnew, hF, htile⟩))
      · exact Or.inr (Or.inl hin)
    · exact Or.inr (Or.inr (Or.inl ⟨e, (hws _).mpr (Or.inr he)⟩))
    · exact Or.inr (Or.inr (Or.inr ⟨f, F, (hws _).mpr (Or.inr hf), hF, htile⟩))

end

namespace BrowserTileStore

/-- A worker begins a load that is not in flight, and awaits it. -/
theorem Sound.begin {calls : List EnsureCall} (h : ({ s with calls } : BrowserTileStore).Sound)
    (hc : calls[id]? = some c) (hnone : s.inflight.get? t = none)
    (hc' : c'.Sound s.activeKeeps (s.fetches ++ [{ tile := t }]) s.tiles id)
    (hnew : TileWorker.loading s.fetches.length ∈ c'.workers) (hmem : c.workers ⊆ c'.workers) :
    ({ s with
      fetches := s.fetches ++ [{ tile := t }]
      inflight := s.inflight.set t s.fetches.length
      calls := calls.set id c' } : BrowserTileStore).Sound := by
  refine ⟨fun u f hu => ?_, ?_, ?_, ?_, h.own, h.failed_le, fun id' keep hkeep => ?_, ?_⟩
  · change ∃ F, (s.fetches ++ [({ tile := t } : TileFetch)])[f]? = some F ∧ _
    rw [OrderedMap.get?_set] at hu
    split_ifs at hu with htile
    · rw [← Option.some.inj hu]
      exact ⟨_, List.getElem?_concat_length, htile.symm, rfl⟩
    · obtain ⟨F, hF, htileF, hflying⟩ := h.inflight u f hu
      refine ⟨F, ?_, htileF, hflying⟩
      rw [List.getElem?_append_left (List.getElem?_eq_some_iff.mp hF).1]
      exact hF
  · refine (forall_concat (P := fun f (F : TileFetch) => F.forgotten = false →
      (s.inflight.set t s.fetches.length).get? F.tile = some f)).mpr ⟨fun f F hF hflying => ?_, fun _ => ?_⟩
    · have hold := h.flying f F hF hflying
      rw [OrderedMap.get?_set_of_ne]
      · exact hold
      · intro htile
        rw [htile] at hold
        exact Option.some_ne_none f (hold.symm.trans hnone)
    · exact OrderedMap.get?_set_self _ _ _
  · refine (forall_concat (P := fun _ (F : TileFetch) => F.forgotten = true → F.result.isSome = true)).mpr
      ⟨h.settled, fun hforgotten => ?_⟩
    cases hforgotten
  · have hself : (calls.set id c')[id]? = some c' := by
      rw [getElem?_set_of_some hc, if_pos rfl]
    refine (forall_concat (P := fun f (F : TileFetch) => F.forgotten = false →
      ∃ (i : ℕ) (d : EnsureCall), (calls.set id c')[i]? = some d ∧ TileWorker.loading f ∈ d.workers)).mpr
        ⟨fun f F hF hflying => ?_, fun _ => ⟨id, c', hself, hnew⟩⟩
    obtain ⟨i, d, hd, hf⟩ := h.awaited f F hF hflying
    by_cases hi : i = id
    · change calls[i]? = some d at hd
      rw [hi, hc] at hd
      obtain rfl := Option.some.inj hd
      exact ⟨id, c', hself, hmem hf⟩
    · refine ⟨i, d, ?_, hf⟩
      rw [getElem?_set_of_some hc, if_neg hi]
      exact hd
  · change id' < (calls.set id c').length
    rw [List.length_set]
    exact h.keeps_lt id' keep hkeep
  · exact (forall_set hc (P := fun i d => EnsureCall.Sound s.activeKeeps (s.fetches ++ [{ tile := t }]) s.tiles i d)).mpr
      ⟨hc', fun i d _ hd => (h.calls i d hd).concat _⟩

/-- A worker takes a tile of the queue, or returns. -/
theorem Sound.turn {calls : List EnsureCall} (h : ({ s with calls } : BrowserTileStore).Sound)
    {base : List TileWorker} (ws : List TileWorker) (hc : calls[id]? = some { c with workers := base })
    (hopen : c.outcome = none) (stale : Bool)
    (hws : ∀ w, w ∈ ws ↔ w = (s.turn c stale).2.2 ∨ w ∈ base) :
    ({ (s.turn c stale).1 with
      calls := calls.set id { (s.turn c stale).2.1 with workers := ws } } : BrowserTileStore).Sound := by
  have hsound := h.calls id _ hc
  have hbase : base ⊆ ws := fun w hw => (hws w).mpr (Or.inr hw)
  have hset : ∀ {c' : EnsureCall}, c'.Sound s.activeKeeps s.fetches s.tiles id → c'.workers = ws →
      ({ s with calls := calls.set id c' } : BrowserTileStore).Sound := by
    intro c' hc' hworkers
    exact h.setCall hc hc' fun f _ hf _ _ => hworkers ▸ hbase hf
  unfold BrowserTileStore.turn at hws ⊢
  cases hqueue : c.queue with
  | nil =>
    rw [hqueue] at hws
    refine hset (hsound.leaves hopen hws (fun hstale => ⟨hstale, hqueue⟩) (List.Subset.refl _)) rfl
  | cons t queue =>
    rw [hqueue] at hws
    dsimp only at hws ⊢
    split_ifs at hws ⊢ with hstale
    · subst hstale
      refine hset (hsound.leaves hopen hws (fun hfalse => ?_) ?_) rfl
      · cases hfalse
      · change queue ⊆ c.queue
        rw [hqueue]
        exact List.subset_cons_self t queue
    · -- the tile has failed just now, or its load is joined, or begun
      have hjoin : ∀ {ws : List TileWorker}, (∀ w, w ∈ ws ↔ w = (s.join t).2 ∨ w ∈ base) →
          ({ (s.join t).1 with
            calls := calls.set id { c with queue, workers := ws } } : BrowserTileStore).Sound := by
        intro ws hws
        unfold join at hws ⊢
        cases hinflight : s.inflight.get? t with
        | some f =>
          rw [hinflight] at hws
          obtain ⟨F, hF, htile, hflying⟩ := h.inflight t f hinflight
          refine h.setCall hc (hsound.takes hopen hqueue hws (Or.inr ⟨f, F, rfl, hF, htile, fun hgood => ?_⟩))
            fun f _ hf _ _ => (hws _).mpr (Or.inr hf)
          exact htile ▸ h.has_of_flying hF hflying hgood
        | none =>
          rw [hinflight] at hws
          refine h.begin hc hinflight ((hsound.concat _).takes hopen hqueue hws (Or.inr ⟨s.fetches.length,
            _, rfl, List.getElem?_concat_length, rfl, fun hgood => ?_⟩)) ((hws _).mpr (Or.inl rfl))
            fun w hw => (hws w).mpr (Or.inr hw)
          cases hgood
      unfold load at hws ⊢
      cases hfailed : s.failed.get? t with
      | none =>
        rw [hfailed] at hws
        exact hjoin hws
      | some failure =>
        rw [hfailed] at hws
        dsimp only at hws ⊢
        split_ifs at hws ⊢
        · exact hset (hsound.takes hopen hqueue hws (Or.inl ⟨failure.2, rfl⟩)) rfl
        · exact hjoin hws

theorem Sound.start {calls : List EnsureCall} (hcalls : s.calls = calls) (stale : Bool) (n : ℕ)
    (h : ({ s with calls := calls ++ [c] } : BrowserTileStore).Sound) (hopen : c.outcome = none) :
    ({ (start stale n s c).1 with calls := calls ++ [(start stale n s c).2] } : BrowserTileStore).Sound ∧
      (start stale n s c).1.calls = calls := by
  induction n generalizing s c with
  | zero => exact ⟨h, hcalls⟩
  | succ n ih =>
    have hlast : (calls ++ [c])[calls.length]? = some { c with workers := c.workers } :=
      List.getElem?_concat_length
    have hturn := h.turn (c.workers ++ [(s.turn c stale).2.2]) hlast hopen stale fun w => by
      rw [List.mem_append, List.mem_singleton, or_comm]
    rw [List.set_append_right _ _ le_rfl, Nat.sub_self, List.set_cons_zero] at hturn
    rw [← turn_workers s c stale] at hturn
    exact ih ((turn_calls s c stale).trans hcalls) hturn ((turn_outcome s c stale).trans hopen)

/-- What a worker awaited is settled, and the error it brings is noted. -/
theorem Sound.note (h : s.Sound) (hc : s.calls[id]? = some c) {i : ℕ} {w : TileWorker}
    (hw : c.workers[i]? = some w) {error : Option TileLoadError} (hawaited : s.awaited w = some error) :
    ({ s with
      calls := s.calls.set id { c.note error with workers := c.workers.eraseIdx i } } : BrowserTileStore).Sound := by
  have hsound := h.calls id c hc
  have hsub : c.workers.eraseIdx i ⊆ c.workers := List.eraseIdx_subset
  have hrest : ∀ w' ∈ c.workers, w' = w ∨ w' ∈ c.workers.eraseIdx i := by
    intro w' hw'
    rw [← set_of_getElem? hw] at hw'
    exact (mem_set_iff hw w).mp hw'
  have hover : ∀ (f : ℕ) (F : TileFetch), w = .loading f → s.fetches[f]? = some F →
      F.forgotten = true ∧ (error = none → F.result = some (.ok ())) := by
    intro f F hwf hF
    rw [hwf, BrowserTileStore.awaited, hF, Option.bind_some] at hawaited
    split_ifs at hawaited with hforgotten
    refine ⟨hforgotten, fun hgood => ?_⟩
    obtain ⟨result, hresult, heq⟩ := Option.map_eq_some_iff.mp hawaited
    cases result with
    | ok u => exact hresult
    | error e =>
      rw [hgood] at heq
      cases heq
  refine h.setCall hc ⟨hsound.kept, fun hne w' hw' => hsound.closed hne w' (hsub hw'), hsound.queue_subset,
    fun f hf => hsound.loading f (hsub hf), fun hret => hsound.returned (hsub hret), ?_⟩ ?_
  · intro hopen hstale herror t ht
    obtain ⟨hfirst, hgood⟩ := Option.or_eq_none_iff.mp herror
    rcases hsound.accounted hopen hstale hfirst t ht with hhas | hin | ⟨e, he⟩ | ⟨f, F, hf, hF, htile⟩
    · exact Or.inl hhas
    · exact Or.inr (Or.inl hin)
    · rcases hrest _ he with rfl | he
      · rw [hgood] at hawaited
        cases hawaited
      · exact Or.inr (Or.inr (Or.inl ⟨e, he⟩))
    · rcases hrest _ hf with heq | hf'
      · obtain ⟨F', hF', -, hhas⟩ := hsound.loading f hf
        rw [hF] at hF'
        obtain rfl := Option.some.inj hF'
        exact Or.inl (htile ▸ hhas ((hover f F heq.symm hF).2 hgood))
      · exact Or.inr (Or.inr (Or.inr ⟨f, F, hf', hF, htile⟩))
  · intro f F hf hF hflying
    refine (hrest _ hf).resolve_left fun heq => ?_
    rw [(hover f F heq.symm hF).1] at hflying
    cases hflying

theorem Sound.resume (h : s.Sound) (hc : s.calls[id]? = some c) {i : ℕ} {w : TileWorker}
    (hw : c.workers[i]? = some w) {error : Option TileLoadError} (hawaited : s.awaited w = some error)
    (stale : Bool) :
    ({ (s.turn (c.note error) stale).1 with
      calls := (s.turn (c.note error) stale).1.calls.set id { (s.turn (c.note error) stale).2.1 with
        workers := (s.turn (c.note error) stale).2.1.workers.set i (s.turn (c.note error) stale).2.2 } } :
          BrowserTileStore).Sound := by
  have hopen : c.outcome = none := by
    by_contra hover
    rw [(h.calls id c hc).closed hover w (List.mem_of_getElem? hw)] at hawaited
    cases hawaited
  have hself : (s.calls.set id { c.note error with workers := c.workers.eraseIdx i })[id]? =
      some { c.note error with workers := c.workers.eraseIdx i } := by
    rw [getElem?_set_of_some hc, if_pos rfl]
  have hturn := (h.note hc hw hawaited).turn _ hself hopen stale fun w' => mem_set_iff hw _
  rw [List.set_set] at hturn
  rw [turn_calls, turn_workers]
  exact hturn

/-! ### Loads -/

/-- A load ends: a kept tile stays, and a good load leaves its tile if it is kept. -/
theorem Sound.settled_load (h : s.Sound) {f : TileFetch} (f' : TileFetch) (hf : s.fetches[id]? = some f)
    (htile : f'.tile = f.tile) (hforgotten : f'.forgotten = f.forgotten) (hresult : f'.result.isSome = true)
    {tiles : OrderedMap TileIndex GeoTile} {failed : OrderedMap TileIndex (ℤ × TileLoadError)}
    (hown : ∀ t g, tiles.get? t = some g → g.toTileIndex = t) (hfailed : failed.size ≤ maxFailed)
    (hkeep : ∀ t, s.isKept t = true → s.has t = true → tiles.has t = true)
    (hgood : f'.result = some (.ok ()) → s.isKept f.tile = true → tiles.has f.tile = true) :
    ({ s with fetches := s.fetches.set id f', tiles, failed } : BrowserTileStore).Sound := by
  have hlookup : ∀ {i : ℕ} {F : TileFetch}, s.fetches[i]? = some F →
      ∃ F', (s.fetches.set id f')[i]? = some F' ∧ F'.tile = F.tile ∧ F'.forgotten = F.forgotten := by
    intro i F hF
    rw [getElem?_set_of_some hf]
    split_ifs with hi
    · rw [hi, hf] at hF
      obtain rfl := Option.some.inj hF
      exact ⟨f', rfl, htile, hforgotten⟩
    · exact ⟨F, hF, rfl, rfl⟩
  refine ⟨fun t i hi => ?_, ?_, ?_, ?_, hown, hfailed, h.keeps_lt, fun i c hc => ?_⟩
  · obtain ⟨F, hF, htileF, hflying⟩ := h.inflight t i hi
    obtain ⟨F', hF', htile', hforgotten'⟩ := hlookup hF
    exact ⟨F', hF', htile'.trans htileF, hforgotten'.trans hflying⟩
  · refine (forall_set hf (P := fun i (F : TileFetch) => F.forgotten = false →
      s.inflight.get? F.tile = some i)).mpr ⟨fun hflying => ?_, fun i F _ hF => h.flying i F hF⟩
    rw [htile]
    exact h.flying id f hf (hforgotten ▸ hflying)
  · exact (forall_set hf (P := fun _ (F : TileFetch) => F.forgotten = true → F.result.isSome = true)).mpr
      ⟨fun _ => hresult, fun i F _ hF => h.settled i F hF⟩
  · refine (forall_set hf (P := fun i (F : TileFetch) => F.forgotten = false →
      ∃ (id : ℕ) (c : EnsureCall), s.calls[id]? = some c ∧ TileWorker.loading i ∈ c.workers)).mpr
        ⟨fun hflying => h.awaited id f hf (hforgotten ▸ hflying), fun i F _ hF => h.awaited i F hF⟩
  · have hsound := h.calls i c hc
    have hhas : ∀ t ∈ c.wanted, c.outcome = none → s.has t = true → tiles.has t = true := by
      intro t ht hopen
      have hkept := hsound.kept
      rw [hopen] at hkept
      exact hkeep t (isKept_of_activeKeeps hkept ht)
    refine ⟨hsound.kept, hsound.closed, hsound.queue_subset, fun j hj => ?_, hsound.returned,
      fun hopen hstale herror t ht => ?_⟩
    · have hopen := open_of_loading hsound hj
      obtain ⟨F, hF, hwanted, hhasF⟩ := hsound.loading j hj
      change ∃ F', (s.fetches.set id f')[j]? = some F' ∧ _
      rw [getElem?_set_of_some hf]
      split_ifs with hji
      · rw [hji, hf] at hF
        obtain rfl := Option.some.inj hF
        refine ⟨f', rfl, htile ▸ hwanted, fun hok => ?_⟩
        have hkept := hsound.kept
        rw [hopen] at hkept
        exact htile ▸ hgood hok (isKept_of_activeKeeps hkept hwanted)
      · exact ⟨F, hF, hwanted, fun hok => hhas _ hwanted hopen (hhasF hok)⟩
    · rcases hsound.accounted hopen hstale herror t ht with hthere | hin | hrefused | ⟨j, F, hj, hF, htileF⟩
      · exact Or.inl (hhas t ht hopen hthere)
      · exact Or.inr (Or.inl hin)
      · exact Or.inr (Or.inr (Or.inl hrefused))
      · obtain ⟨F', hF', htile', -⟩ := hlookup hF
        exact Or.inr (Or.inr (Or.inr ⟨j, F', hj, hF', htile'.trans htileF⟩))

theorem toTileIndex_of_readReply {reply : TileReply} {tile : GeoTile} (h : readReply t reply = .ok tile) :
    tile.toTileIndex = t := by
  cases reply with
  | threw message => cases h
  | refused status detail => cases h
  | decoded g =>
    rw [readReply] at h
    split_ifs at h with hother
    obtain rfl := Except.ok.inj h
    rw [not_or, not_not, not_not] at hother
    cases t
    exact congrArg₂ TileIndex.mk hother.1 hother.2

theorem Sound.settle (h : s.Sound) {f : TileFetch} (hf : s.fetches[id]? = some f) (reply : TileReply) : (s.settle maxTiles id f reply).Sound := by
  unfold BrowserTileStore.settle
  cases hreply : readReply f.tile reply with
  | error e =>
    refine h.settled_load { f with result := some (.error e) } hf rfl rfl rfl h.own
      (recordFailure_size h.failed_le _ _) (fun _ _ hhas => hhas) fun hgood => ?_
    cases hgood
  | ok tile =>
    dsimp only
    let loaded : BrowserTileStore := { s with
      fetches := s.fetches.set id { f with result := some (.ok ()) }
      tiles := s.tiles.set f.tile tile
      failed := s.failed.delete f.tile }
    have htrim : loaded.trim maxTiles = { s with
        fetches := s.fetches.set id { f with result := some (.ok ()) }
        tiles := (loaded.trim maxTiles).tiles
        failed := s.failed.delete f.tile } := by
      rw [trim_eq]
    have hkept : ∀ t, s.isKept t = true → (s.tiles.set f.tile tile).has t = true →
        (loaded.trim maxTiles).tiles.has t = true := by
      intro t ht hhas
      obtain ⟨g, hg⟩ := Option.isSome_iff_exists.mp hhas
      exact Option.isSome_iff_exists.mpr ⟨g, get?_trim (s := loaded) ht hg⟩
    change (loaded.trim maxTiles).Sound
    rw [htrim]
    refine h.settled_load { f with result := some (.ok ()) } hf rfl rfl rfl (fun t g hg => ?_)
      ((OrderedMap.size_delete_le _ _).trans h.failed_le) (fun t ht hhas => ?_) fun _ ht => ?_
    · have hset : (s.tiles.set f.tile tile).get? t = some g := get?_of_get?_trim hg
      rw [OrderedMap.get?_set] at hset
      split_ifs at hset with htile
      · rw [← Option.some.inj hset, htile]
        exact toTileIndex_of_readReply hreply
      · exact h.own t g hset
    · exact hkept t ht (OrderedMap.has_set_of_has hhas)
    · refine hkept f.tile ht ?_
      rw [OrderedMap.has, OrderedMap.get?_set_self]
      rfl

/-- The end of a load is noted. -/
theorem Sound.forget (h : s.Sound) {f : TileFetch} (hf : s.fetches[id]? = some f)
    (hresult : f.result.isSome = true) (hflying : f.forgotten = false) :
    ({ s with
      fetches := s.fetches.set id { f with forgotten := true }
      inflight := s.inflight.delete f.tile } : BrowserTileStore).Sound := by
  have hown := h.flying id f hf hflying
  have hkeep : ∀ {i : ℕ} {F : TileFetch}, i ≠ id → s.fetches[i]? = some F →
      (s.fetches.set id { f with forgotten := true })[i]? = some F := by
    intro i F hi hF
    rw [getElem?_set_of_some hf, if_neg hi]
    exact hF
  refine ⟨fun t i hi => ?_, ?_, ?_, ?_, h.own, h.failed_le, h.keeps_lt, fun i c hc => ?_⟩
  · rw [OrderedMap.get?_delete] at hi
    split_ifs at hi with htile
    obtain ⟨F, hF, htileF, hflyingF⟩ := h.inflight t i hi
    refine ⟨F, hkeep ?_ hF, htileF, hflyingF⟩
    rintro rfl
    rw [hf] at hF
    obtain rfl := Option.some.inj hF
    exact htile htileF.symm
  · refine (forall_set hf (P := fun i (F : TileFetch) => F.forgotten = false →
      (s.inflight.delete f.tile).get? F.tile = some i)).mpr ⟨fun hflying => ?_, fun i F hi hF hflyingF => ?_⟩
    · cases hflying
    · have hother := h.flying i F hF hflyingF
      rw [OrderedMap.get?_delete_of_ne]
      · exact hother
      · intro htile
        rw [htile, hown] at hother
        exact hi (Option.some.inj hother).symm
  · exact (forall_set hf (P := fun _ (F : TileFetch) => F.forgotten = true → F.result.isSome = true)).mpr
      ⟨fun _ => hresult, fun i F _ hF => h.settled i F hF⟩
  · refine (forall_set hf (P := fun i (F : TileFetch) => F.forgotten = false →
      ∃ (id : ℕ) (c : EnsureCall), s.calls[id]? = some c ∧ TileWorker.loading i ∈ c.workers)).mpr
        ⟨fun hflying => ?_, fun i F _ hF => h.awaited i F hF⟩
    cases hflying
  · have hsound := h.calls i c hc
    have hlookup : ∀ {j : ℕ} {F : TileFetch}, s.fetches[j]? = some F →
        ∃ F', (s.fetches.set id { f with forgotten := true })[j]? = some F' ∧ F'.tile = F.tile ∧
          F'.result = F.result := by
      intro j F hF
      by_cases hj : j = id
      · rw [hj, hf] at hF
        obtain rfl := Option.some.inj hF
        refine ⟨{ f with forgotten := true }, ?_, rfl, rfl⟩
        rw [getElem?_set_of_some hf, if_pos hj]
      · exact ⟨F, hkeep hj hF, rfl, rfl⟩
    refine ⟨hsound.kept, hsound.closed, hsound.queue_subset, fun j hj => ?_, hsound.returned,
      fun hopen hstale herror t ht => ?_⟩
    · obtain ⟨F, hF, hwanted, hhas⟩ := hsound.loading j hj
      obtain ⟨F', hF', htile, hsame⟩ := hlookup hF
      refine ⟨F', hF', htile ▸ hwanted, fun hok => ?_⟩
      rw [htile]
      exact hhas (hsame ▸ hok)
    · rcases hsound.accounted hopen hstale herror t ht with hthere | hin | hrefused | ⟨j, F, hj, hF, htile⟩
      · exact Or.inl hthere
      · exact Or.inr (Or.inl hin)
      · exact Or.inr (Or.inr (Or.inl hrefused))
      · obtain ⟨F', hF', htile', -⟩ := hlookup hF
        exact Or.inr (Or.inr (Or.inr ⟨j, F', hj, hF', htile'.trans htile⟩))

/-! ### Calls begin and end -/

theorem Sound.finish (h : s.Sound) (hc : s.calls[id]? = some c)
    (hreturned : ∀ w ∈ c.workers, w = .returned) (outcome : Except TileLoadError Unit) :
    ({ s with
      activeKeeps := s.activeKeeps.delete id
      calls := s.calls.set id { c with outcome := some outcome } } : BrowserTileStore).Sound := by
  have hsound := h.calls id c hc
  refine ⟨h.inflight, h.flying, h.settled, fun f F hF hflying => ?_, h.own, h.failed_le, fun i keep hkeep => ?_, ?_⟩
  · obtain ⟨i, d, hd, hmem⟩ := h.awaited f F hF hflying
    refine ⟨i, d, ?_, hmem⟩
    change (s.calls.set id _)[i]? = some d
    rw [getElem?_set_of_some hc, if_neg]
    · exact hd
    · rintro rfl
      rw [hc] at hd
      obtain rfl := Option.some.inj hd
      cases hreturned _ hmem
  · change i < (s.calls.set id _).length
    rw [OrderedMap.get?_delete] at hkeep
    split_ifs at hkeep
    rw [List.length_set]
    exact h.keeps_lt i keep hkeep
  · refine (forall_set hc (P := fun i d =>
      EnsureCall.Sound (s.activeKeeps.delete id) s.fetches s.tiles i d)).mpr
        ⟨⟨?_, fun _ => hreturned, hsound.queue_subset, fun f hf => ?_, hsound.returned, fun hopen => ?_⟩,
          fun i d hi hd => ?_⟩
    · rw [OrderedMap.get?_delete_self]
      rfl
    · cases hreturned _ hf
    · cases hopen
    · refine (h.calls i d hd).of_keeps ?_
      rw [OrderedMap.get?_delete_of_ne _ hi]

/-- A call that is added to the list. -/
theorem Sound.addCall {keeps : OrderedMap ℕ (List TileIndex)} (h : s.Sound)
    (hothers : ∀ i < s.calls.length, keeps.get? i = s.activeKeeps.get? i)
    (hlt : ∀ i keep, keeps.get? i = some keep → i ≤ s.calls.length)
    (hc : c.Sound keeps s.fetches s.tiles s.calls.length) :
    ({ s with activeKeeps := keeps, calls := s.calls ++ [c] } : BrowserTileStore).Sound := by
  refine ⟨h.inflight, h.flying, h.settled, fun f F hF hflying => ?_, h.own, h.failed_le, fun i keep hkeep => ?_, ?_⟩
  · obtain ⟨i, d, hd, hmem⟩ := h.awaited f F hF hflying
    refine ⟨i, d, ?_, hmem⟩
    change (s.calls ++ [c])[i]? = some d
    rw [List.getElem?_append_left (List.getElem?_eq_some_iff.mp hd).1]
    exact hd
  · change i < (s.calls ++ [c]).length
    rw [List.length_append, List.length_singleton]
    exact Nat.lt_succ_of_le (hlt i keep hkeep)
  · exact (forall_concat (P := fun i d => EnsureCall.Sound keeps s.fetches s.tiles i d)).mpr
      ⟨fun i d hd => (h.calls i d hd).of_keeps (hothers i (List.getElem?_eq_some_iff.mp hd).1), hc⟩

theorem Sound.ensure (h : s.Sound) (tiles : List TileIndex) (concurrency : Option ℤ) (stale : Bool) :
    (s.ensure tiles concurrency stale).Sound := by
  have hnone : s.activeKeeps.get? s.calls.length = none := by
    cases hkeep : s.activeKeeps.get? s.calls.length with
    | none => rfl
    | some keep => exact absurd (h.keeps_lt _ keep hkeep) (lt_irrefl _)
  unfold BrowserTileStore.ensure
  dsimp only
  split_ifs with hempty
  · refine h.addCall (fun _ _ => rfl) (fun i keep hkeep => (h.keeps_lt i keep hkeep).le)
      ⟨hnone, fun _ w hw => absurd hw List.not_mem_nil, List.nil_subset _,
        fun f hf => absurd hf List.not_mem_nil, fun _ _ => rfl, fun hopen => ?_⟩
    cases hopen
  · have hadd : ∀ {todo : List TileIndex}, todo = (tiles.filter fun t => validTile t).filter (fun t => !s.has t) →
        ({ s with
          activeKeeps := s.activeKeeps.set s.calls.length (tiles.filter fun t => validTile t)
          calls := s.calls ++ [{ asked := tiles, queue := todo, total := todo.length }] } :
            BrowserTileStore).Sound := by
      rintro todo rfl
      refine h.addCall (fun i hi => OrderedMap.get?_set_of_ne _ _ hi.ne) (fun i keep hkeep => ?_)
        ⟨OrderedMap.get?_set_self _ _ _, fun hover => absurd rfl hover, List.filter_subset_self _,
          fun f hf => absurd hf List.not_mem_nil, fun hw => absurd hw List.not_mem_nil, fun _ _ _ t ht => ?_⟩
      · rw [OrderedMap.get?_set] at hkeep
        split_ifs at hkeep with hi
        · exact hi.le
        · exact (h.keeps_lt i keep hkeep).le
      · cases hhas : s.has t with
        | true => exact Or.inl hhas
        | false =>
          refine Or.inr (Or.inl (List.mem_filter.mpr ⟨ht, ?_⟩))
          rw [hhas]
          rfl
    obtain ⟨hsound, hcalls⟩ := (hadd rfl).start (s := { s with
      activeKeeps := s.activeKeeps.set s.calls.length (tiles.filter fun t => validTile t) }) rfl stale
      (min (concurrency.getD 4) ((tiles.filter fun t => validTile t).filter fun t => !s.has t).length).toNat rfl
    rw [hcalls]
    exact hsound

theorem Sound.step (h : s.Sound) {event : TileStoreEvent} (hs' : s.step maxTiles event = some s') : s'.Sound := by
  cases event with
  | pin tiles =>
    rw [← Option.some.inj hs']
    exact ⟨h.inflight, h.flying, h.settled, h.awaited, h.own, h.failed_le, h.keeps_lt, h.calls⟩
  | setVisible tiles =>
    rw [← Option.some.inj hs']
    exact ⟨h.inflight, h.flying, h.settled, h.awaited, h.own, h.failed_le, h.keeps_lt, h.calls⟩
  | advance clock =>
    rw [← Option.some.inj hs']
    exact ⟨h.inflight, h.flying, h.settled, h.awaited, h.own, h.failed_le, h.keeps_lt, h.calls⟩
  | ensure tiles concurrency stale =>
    rw [← Option.some.inj hs']
    exact h.ensure tiles concurrency stale
  | settle f reply =>
    obtain ⟨F, hF, hs'⟩ := Option.bind_eq_some_iff.mp hs'
    split_ifs at hs'
    rw [← Option.some.inj hs']
    exact h.settle hF reply
  | forget f =>
    obtain ⟨F, hF, hs'⟩ := Option.bind_eq_some_iff.mp hs'
    split_ifs at hs' with hdone
    rw [← Option.some.inj hs']
    obtain ⟨hresult, hflying⟩ := Bool.and_eq_true_iff.mp hdone
    exact h.forget hF hresult (Bool.not_eq_true' _ ▸ hflying)
  | resume id i stale =>
    obtain ⟨c, hc, hs'⟩ := Option.bind_eq_some_iff.mp hs'
    obtain ⟨w, hw, hs'⟩ := Option.bind_eq_some_iff.mp hs'
    obtain ⟨error, herror, hs'⟩ := Option.bind_eq_some_iff.mp hs'
    rw [← Option.some.inj hs']
    exact h.resume hc hw herror stale
  | finish id =>
    obtain ⟨c, hc, hs'⟩ := Option.bind_eq_some_iff.mp hs'
    split_ifs at hs' with hdone
    rw [← Option.some.inj hs']
    refine h.finish hc (fun w hw => hasReturned_iff.mp ?_) _
    exact List.all_eq_true.mp (Bool.and_eq_true_iff.mp hdone).2 w hw

end BrowserTileStore

theorem browserTileStore_sound (h : (browserTileStore maxTiles).Reachable s) : s.Sound := by
  refine h.invariant (fun s hinit => ?_) fun s e s' hs _ hstep => hs.step hstep
  obtain ⟨clock, rfl⟩ := hinit
  refine ⟨fun t f hf => ?_, fun f F hF => ?_, fun f F hF => ?_, fun f F hF => ?_, fun t g hg => ?_,
    Nat.zero_le _, fun id keep hkeep => ?_, fun id c hc => ?_⟩
  · cases hf
  · cases hF
  · cases hF
  · cases hF
  · cases hg
  · cases hkeep
  · cases hc

/-! ### What is asked for is kept -/

/-- The tile is pinned, or visible, or asked for by a call in progress. -/
def BrowserTileStore.Protected (s : BrowserTileStore) (t : TileIndex) : Prop :=
  t ∈ s.pinned ∨ t ∈ s.visible ∨ ∃ c ∈ s.calls, c.outcome = none ∧ t ∈ c.wanted

namespace BrowserTileStore

theorem Sound.isKept_iff (h : s.Sound) : s.isKept t = true ↔ s.Protected t := by
  have hkeeps : (s.activeKeeps.values.any fun keep => keep.contains t) = true ↔
      ∃ c ∈ s.calls, c.outcome = none ∧ t ∈ c.wanted := by
    rw [List.any_eq_true]
    constructor
    · rintro ⟨keep, hkeep, ht⟩
      obtain ⟨id, hid⟩ := OrderedMap.mem_values.mp hkeep
      have hget := OrderedMap.get?_eq_some.mpr hid
      have hc := List.getElem?_eq_getElem (h.keeps_lt id keep hget)
      have hkept := (h.calls id _ hc).kept
      rw [hget] at hkept
      split_ifs at hkept with hopen
      refine ⟨_, List.mem_of_getElem? hc, Option.isNone_iff_eq_none.mp hopen, ?_⟩
      rw [← Option.some.inj hkept]
      exact List.contains_iff_mem.mp ht
    · rintro ⟨c, hc, hopen, ht⟩
      obtain ⟨id, hid⟩ := List.getElem?_of_mem hc
      have hkept := (h.calls id c hid).kept
      rw [hopen] at hkept
      exact ⟨c.wanted, OrderedMap.mem_values.mpr ⟨id, OrderedMap.get?_eq_some.mp hkept⟩,
        List.contains_iff_mem.mpr ht⟩
  rw [isKept, Bool.or_eq_true, Bool.or_eq_true, hkeeps, List.contains_iff_mem, List.contains_iff_mem, or_assoc]
  rfl

end BrowserTileStore

end Arald
