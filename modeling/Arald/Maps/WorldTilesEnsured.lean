import Arald.Maps.WorldTilesRuns

/-!
# What a call of `ensure` leaves behind

A call that ends well has all its tiles; while it is in progress it waits for the server or can go
on, and the numbers that it reports never pass its total.
-/

namespace Arald

open Foundations

variable {maxTiles id : ℕ} {s s' : BrowserTileStore} {c c' : EnsureCall} {t : TileIndex}

namespace BrowserTileStore

theorem missing_eq_nil {tiles : List TileIndex} (h : ∀ t ∈ tiles.filter (fun t => validTile t), s.has t = true) :
    s.missing tiles = [] := by
  refine List.filter_eq_nil_iff.mpr fun t ht hmissing => ?_
  obtain ⟨hvalid, hhas⟩ := Bool.and_eq_true_iff.mp hmissing
  rw [h t (List.mem_filter.mpr ⟨ht, hvalid⟩)] at hhas
  cases hhas

end BrowserTileStore

/-! ### Progress -/

/-- The tiles of a call that are done, queued and under way are all that it had to load, but for
those that its stale workers dropped. -/
structure EnsureCall.Counted (c : EnsureCall) : Prop where
  pos : c.outcome = none → 0 < c.total
  le : c.done + c.queue.length + c.workers.countP (fun w => !w.hasReturned) ≤ c.total
  eq : c.stale = false → c.done + c.queue.length + c.workers.countP (fun w => !w.hasReturned) = c.total

namespace BrowserTileStore

/-- A tile whose error is recent is not asked for again. -/
theorem load_of_recentError {error : TileLoadError} (h : s.recentError [t] = some error) :
    s.load t = (s, .refused error) := by
  unfold recentError at h
  rw [List.findSome?_cons, List.findSome?_nil] at h
  unfold load
  cases hfailed : s.failed.get? t with
  | none =>
    rw [hfailed] at h
    cases h
  | some failure =>
    rw [hfailed, Option.bind_some] at h
    dsimp only
    split_ifs at h ⊢
    rw [← Option.some.inj h]

/-- What a worker takes leaves the queue. -/
theorem turn_queue (s : BrowserTileStore) (c : EnsureCall) (stale : Bool) :
    (s.turn c stale).2.1.done = c.done ∧ (s.turn c stale).2.1.total = c.total ∧
      (s.turn c stale).2.1.queue.length + (!(s.turn c stale).2.2.hasReturned).toNat ≤ c.queue.length ∧
      ((s.turn c stale).2.1.stale = false → c.stale = false ∧
        (s.turn c stale).2.1.queue.length + (!(s.turn c stale).2.2.hasReturned).toNat = c.queue.length) := by
  have hload : ∀ t, (s.load t).2.hasReturned = false := by
    intro t
    unfold load join
    repeat' split
    all_goals rfl
  unfold turn
  cases hqueue : c.queue with
  | nil =>
    have hlength : c.queue.length = 0 := congrArg List.length hqueue
    exact ⟨rfl, rfl, hlength.le, fun hcalm => ⟨hcalm, hlength⟩⟩
  | cons t queue =>
    dsimp only
    split_ifs with hstale
    · exact ⟨rfl, rfl, Nat.le_succ _, fun hfalse => absurd hstale (Bool.not_eq_true _ ▸ hfalse)⟩
    · rw [hload]
      exact ⟨rfl, rfl, le_rfl, fun hcalm => ⟨hcalm, rfl⟩⟩

/-- A worker that was done with its tile, or is new, takes the next one. -/
theorem counted_turn (h : c.Counted) (s : BrowserTileStore) (stale : Bool) {ws : List TileWorker}
    (hws : ws.countP (fun w => !w.hasReturned) =
      c.workers.countP (fun w => !w.hasReturned) + (!(s.turn c stale).2.2.hasReturned).toNat) :
    ({ (s.turn c stale).2.1 with workers := ws } : EnsureCall).Counted := by
  obtain ⟨hdone, htotal, hle, heq⟩ := turn_queue s c stale
  refine ⟨fun hopen => ?_, ?_, fun hcalm => ?_⟩
  · change 0 < (s.turn c stale).2.1.total
    rw [htotal]
    exact h.pos ((turn_outcome s c stale).symm.trans hopen)
  · have hbefore := h.le
    change (s.turn c stale).2.1.done + (s.turn c stale).2.1.queue.length + _ ≤ (s.turn c stale).2.1.total
    rw [hdone, htotal, hws]
    omega
  · obtain ⟨hcalm, hsame⟩ := heq hcalm
    have hbefore := h.eq hcalm
    change (s.turn c stale).2.1.done + (s.turn c stale).2.1.queue.length + _ = (s.turn c stale).2.1.total
    rw [hdone, htotal, hws]
    omega

theorem start_counted (stale : Bool) (n : ℕ) (h : c.Counted) : (start stale n s c).2.Counted := by
  induction n generalizing s c with
  | zero => exact h
  | succ n ih =>
    refine ih (counted_turn h s stale ?_)
    rw [turn_workers, List.countP_append, List.countP_singleton]
    cases (s.turn c stale).2.2.hasReturned <;> rfl

end BrowserTileStore

namespace BrowserTileStore

/-- A call that ends well, with workers that no one declared stale, has all its tiles. -/
theorem Sound.all_there (h : s.Sound) (hc : s.calls[id]? = some c) (hopen : c.outcome = none)
    (hreturned : ∀ w ∈ c.workers, w = .returned) (hworkers : c.workers ≠ []) (hstale : c.stale = false)
    (hgood : c.firstError = none) : ∀ t ∈ c.wanted, s.has t = true := by
  intro t ht
  have hsound := h.calls id c hc
  obtain ⟨w, hw⟩ := List.exists_mem_of_ne_nil _ hworkers
  have hqueue := hsound.returned (hreturned w hw ▸ hw) hstale
  rcases hsound.accounted hopen hstale hgood t ht with hhas | hin | ⟨e, he⟩ | ⟨f, F, hf, -⟩
  · exact hhas
  · rw [hqueue] at hin
    cases hin
  · cases hreturned _ he
  · cases hreturned _ hf

theorem Sound.missing_of_end (h : s.Sound) (hcounted : ∀ c ∈ s.calls, c.Counted)
    {event : TileStoreEvent} (hstep : s.step maxTiles event = some s')
    (hc : s'.calls[id]? = some c) (hbefore : ∀ d, s.calls[id]? = some d → d.outcome = none)
    (hover : c.outcome = some (.ok ())) (hstale : c.stale = false) (hworkers : c.total = 0 ∨ c.workers ≠ []) :
    s'.missing c.asked = [] := by
  have hold : s'.calls = s.calls → s'.missing c.asked = [] := by
    intro hsame
    rw [hsame] at hc
    rw [hbefore c hc] at hover
    cases hover
  cases event with
  | pin tiles => exact hold (by rw [← Option.some.inj hstep])
  | setVisible tiles => exact hold (by rw [← Option.some.inj hstep])
  | advance clock => exact hold (by rw [← Option.some.inj hstep])
  | settle f reply =>
    obtain ⟨F, hF, hstep⟩ := Option.bind_eq_some_iff.mp hstep
    split_ifs at hstep
    refine hold ?_
    rw [← Option.some.inj hstep]
    unfold BrowserTileStore.settle
    split
    · rw [trim_eq]
    · rfl
  | forget f =>
    obtain ⟨F, hF, hstep⟩ := Option.bind_eq_some_iff.mp hstep
    split_ifs at hstep
    exact hold (by rw [← Option.some.inj hstep])
  | resume id' i stale =>
    obtain ⟨d, hd, hstep⟩ := Option.bind_eq_some_iff.mp hstep
    obtain ⟨w, hw, hstep⟩ := Option.bind_eq_some_iff.mp hstep
    obtain ⟨error, herror, hstep⟩ := Option.bind_eq_some_iff.mp hstep
    rw [← Option.some.inj hstep, turn_calls, getElem?_set_of_some hd] at hc
    split_ifs at hc with hid
    · rw [← Option.some.inj hc] at hover
      have hopen := (turn_outcome s (d.note error) stale).trans (hbefore d (hid ▸ hd))
      exact absurd (hopen.symm.trans hover) (Option.some_ne_none _).symm
    · rw [hbefore c hc] at hover
      cases hover
  | ensure tiles concurrency stale =>
    rw [← Option.some.inj hstep] at hc ⊢
    unfold BrowserTileStore.ensure at hc ⊢
    dsimp only at hc ⊢
    split_ifs at hc ⊢ with hempty
    · rcases Nat.lt_or_ge id s.calls.length with hid | hid
      · rw [List.getElem?_append_left hid] at hc
        rw [hbefore c hc] at hover
        cases hover
      · obtain rfl := eq_of_getElem?_concat hid hc
        refine missing_eq_nil fun t ht => ?_
        have hnone := List.length_eq_zero_iff.mp hempty
        by_contra hhas
        have hmem : t ∈ (tiles.filter fun t => validTile t).filter fun t => !s.has t :=
          List.mem_filter.mpr ⟨ht, Bool.not_eq_true' _ ▸ Bool.eq_false_of_not_eq_true hhas⟩
        rw [hnone] at hmem
        cases hmem
    · rw [start_calls] at hc
      rcases Nat.lt_or_ge id s.calls.length with hid | hid
      · rw [List.getElem?_append_left hid] at hc
        rw [hbefore c hc] at hover
        cases hover
      · obtain rfl := eq_of_getElem?_concat hid hc
        rw [start_outcome] at hover
        cases hover
  | finish id' =>
    obtain ⟨d, hd, hstep⟩ := Option.bind_eq_some_iff.mp hstep
    split_ifs at hstep with hdone
    rw [← Option.some.inj hstep] at hc ⊢
    rw [getElem?_set_of_some hd] at hc
    split_ifs at hc with hid
    · obtain ⟨hopen, hall⟩ := Bool.and_eq_true_iff.mp hdone
      have hreturned : ∀ w ∈ d.workers, w = .returned := fun w hw =>
        hasReturned_iff.mp (List.all_eq_true.mp hall w hw)
      have hsame := Option.some.inj hc
      rw [← hsame] at hover hstale hworkers ⊢
      have hnone := Option.isNone_iff_eq_none.mp hopen
      have hwork := hworkers.resolve_left ((hcounted d (List.mem_of_getElem? hd)).pos hnone).ne'
      have hgood : d.firstError = none := by
        cases herror : d.firstError with
        | none => rfl
        | some error =>
          rw [herror] at hover
          cases hover
      have hthere := h.all_there hd hnone hreturned hwork hstale hgood
      exact missing_eq_nil hthere
    · rw [hbefore c hc] at hover
      cases hover

theorem counted_step (h : ∀ c ∈ s.calls, c.Counted) {event : TileStoreEvent}
    (hs' : s.step maxTiles event = some s') : ∀ c ∈ s'.calls, c.Counted := by
  have hset : ∀ (id : ℕ) (c' : EnsureCall), c'.Counted → ∀ c ∈ s.calls.set id c', c.Counted := by
    intro id c' hc' c hc
    rcases List.mem_or_eq_of_mem_set hc with hc | rfl
    · exact h c hc
    · exact hc'
  have hconcat : ∀ (c' : EnsureCall), c'.Counted → ∀ c ∈ s.calls ++ [c'], c.Counted := by
    intro c' hc' c hc
    rcases List.mem_append.mp hc with hc | hc
    · exact h c hc
    · rw [List.mem_singleton.mp hc]
      exact hc'
  cases event with
  | pin tiles =>
    rw [← Option.some.inj hs']
    exact h
  | setVisible tiles =>
    rw [← Option.some.inj hs']
    exact h
  | advance clock =>
    rw [← Option.some.inj hs']
    exact h
  | settle f reply =>
    obtain ⟨F, hF, hs'⟩ := Option.bind_eq_some_iff.mp hs'
    split_ifs at hs'
    rw [← Option.some.inj hs']
    unfold BrowserTileStore.settle
    split
    · rw [trim_eq]
      exact h
    · exact h
  | forget f =>
    obtain ⟨F, hF, hs'⟩ := Option.bind_eq_some_iff.mp hs'
    split_ifs at hs'
    rw [← Option.some.inj hs']
    exact h
  | resume id i stale =>
    obtain ⟨c, hc, hs'⟩ := Option.bind_eq_some_iff.mp hs'
    obtain ⟨w, hw, hs'⟩ := Option.bind_eq_some_iff.mp hs'
    obtain ⟨error, herror, hs'⟩ := Option.bind_eq_some_iff.mp hs'
    rw [← Option.some.inj hs', turn_calls, turn_workers]
    have hbusy : w.hasReturned = false := by
      cases w with
      | returned => cases herror
      | _ => rfl
    have hcount := countP_set_of_some hw (s.turn (c.note error) stale).2.2 (fun w => !w.hasReturned)
    rw [hbusy] at hcount
    obtain ⟨hdone, htotal, hle, heq⟩ := turn_queue s (c.note error) stale
    have hbefore := h c (List.mem_of_getElem? hc)
    refine hset id _ ⟨fun hopen => ?_, ?_, fun hcalm => ?_⟩
    · change 0 < (s.turn (c.note error) stale).2.1.total
      rw [htotal]
      exact hbefore.pos ((turn_outcome s (c.note error) stale).symm.trans hopen)
    · have hcle := hbefore.le
      change (s.turn (c.note error) stale).2.1.done + (s.turn (c.note error) stale).2.1.queue.length + _ ≤
        (s.turn (c.note error) stale).2.1.total
      rw [hdone, htotal]
      change c.done + 1 + _ + (c.workers.set i _).countP _ ≤ c.total
      change _ ≤ c.queue.length at hle
      simp only [Bool.not_false, Bool.toNat_true] at hcount
      omega
    · obtain ⟨hcalm, hsame⟩ := heq hcalm
      have hceq := hbefore.eq hcalm
      change (s.turn (c.note error) stale).2.1.done + (s.turn (c.note error) stale).2.1.queue.length + _ =
        (s.turn (c.note error) stale).2.1.total
      rw [hdone, htotal]
      change c.done + 1 + _ + (c.workers.set i _).countP _ = c.total
      change _ = c.queue.length at hsame
      simp only [Bool.not_false, Bool.toNat_true] at hcount
      omega
  | ensure tiles concurrency stale =>
    rw [← Option.some.inj hs']
    unfold BrowserTileStore.ensure
    dsimp only
    split_ifs with hempty
    · exact hconcat _ ⟨fun hopen => absurd hopen (Option.some_ne_none _), le_rfl, fun _ => rfl⟩
    · rw [start_calls]
      refine hconcat _ (start_counted stale _ ⟨fun _ => Nat.pos_of_ne_zero hempty, ?_, fun _ => ?_⟩)
      · exact (Nat.zero_add _).le
      · exact Nat.zero_add _
  | finish id =>
    obtain ⟨c, hc, hs'⟩ := Option.bind_eq_some_iff.mp hs'
    split_ifs at hs'
    rw [← Option.some.inj hs']
    have hcounted := h c (List.mem_of_getElem? hc)
    exact hset id _ ⟨fun hopen => absurd hopen (Option.some_ne_none _), hcounted.le, hcounted.eq⟩

end BrowserTileStore

theorem browserTileStore_counted (h : (browserTileStore maxTiles).Reachable s) : ∀ c ∈ s.calls, c.Counted := by
  refine h.invariant (I := fun s => ∀ c ∈ s.calls, c.Counted) (fun s hinit => ?_)
    fun s e s' hs _ hstep => BrowserTileStore.counted_step hs hstep
  obtain ⟨clock, rfl⟩ := hinit
  exact fun c hc => absurd hc List.not_mem_nil

theorem BrowserTileStore.Sound.spares (h : s.Sound) {event : TileStoreEvent}
    (hstep : s.step maxTiles event = some s') (hprotected : s.Protected t) (hhas : s.has t = true) :
    s'.has t = true := by
  have hold : s'.tiles = s.tiles → s'.has t = true := by
    intro hsame
    rw [BrowserTileStore.has, hsame]
    exact hhas
  cases event with
  | pin tiles => exact hold (by rw [← Option.some.inj hstep])
  | setVisible tiles => exact hold (by rw [← Option.some.inj hstep])
  | advance clock => exact hold (by rw [← Option.some.inj hstep])
  | settle f reply =>
    obtain ⟨F, hF, hstep⟩ := Option.bind_eq_some_iff.mp hstep
    split_ifs at hstep
    rw [← Option.some.inj hstep]
    unfold BrowserTileStore.settle
    split
    · obtain ⟨g, hg⟩ := Option.isSome_iff_exists.mp (OrderedMap.has_set_of_has (v := _) hhas)
      exact Option.isSome_iff_exists.mpr ⟨g, BrowserTileStore.get?_trim (h.isKept_iff.mpr hprotected) hg⟩
    · exact hhas
  | forget f =>
    obtain ⟨F, hF, hstep⟩ := Option.bind_eq_some_iff.mp hstep
    split_ifs at hstep
    exact hold (by rw [← Option.some.inj hstep])
  | resume id i stale =>
    obtain ⟨d, hd, hstep⟩ := Option.bind_eq_some_iff.mp hstep
    obtain ⟨w, hw, hstep⟩ := Option.bind_eq_some_iff.mp hstep
    obtain ⟨error, herror, hstep⟩ := Option.bind_eq_some_iff.mp hstep
    rw [← Option.some.inj hstep] at hold ⊢
    exact hold (BrowserTileStore.turn_tiles _ _ _)
  | ensure tiles concurrency stale =>
    rw [← Option.some.inj hstep] at hold ⊢
    unfold BrowserTileStore.ensure at hold ⊢
    dsimp only at hold ⊢
    split_ifs at hold ⊢
    · exact hhas
    · exact hold (BrowserTileStore.start_tiles _ _ _ _)
  | finish id =>
    obtain ⟨d, hd, hstep⟩ := Option.bind_eq_some_iff.mp hstep
    split_ifs at hstep
    exact hold (by rw [← Option.some.inj hstep])

end Arald
