import Mathlib

/-!
# Bounded stores that evict by rank

A store lists what it holds, oldest first. When a newcomer meets a full store, the
oldest of the entries with the highest rank makes room for it. The newcomer itself
is no candidate, so it can push out an entry of a lower rank than its own.
-/

namespace Foundations

variable {α κ : Type*} (rank : α → ℕ)

/-- The oldest of the entries with the highest rank, between the older and the newer ones. -/
structure IsOldestWorst (before : List α) (victim : α) (after : List α) : Prop where
  before : ∀ e ∈ before, rank e < rank victim
  after : ∀ e ∈ after, rank e ≤ rank victim

/-- What a store may hold after the insertion of a newcomer. -/
inductive Inserts (full : Prop) (newcomer : α) (held : List α) : List α → Prop
  | room (hroom : ¬full) : Inserts full newcomer held (held ++ [newcomer])
  | displaced {before after : List α} {victim : α} (hfull : full)
      (hsplit : held = before ++ victim :: after) (hvictim : IsOldestWorst rank before victim after) :
      Inserts full newcomer held (before ++ after ++ [newcomer])

/-- No entry of a lower rank than the newcomer is lost; when all entries of a full
store have one, the newcomer is not taken. -/
structure SparesLower (full : Prop) (newcomer : α) (held held' : List α) : Prop where
  kept : ∀ e ∈ held, rank e < rank newcomer → e ∈ held'
  refused : full → (∀ e ∈ held, rank e < rank newcomer) → newcomer ∉ held'

variable {rank} {full : Prop} {newcomer : α} {held held' : List α}

/-- A store that stays as it is spares everything. -/
theorem SparesLower.refl (full : Prop) (newcomer : α) (held : List α) :
    SparesLower rank full newcomer held held where
  kept _ he _ := he
  refused _ hlower hmem := (hlower newcomer hmem).false

/-- An insertion loses no entry of a lower rank unless all entries have one. -/
theorem Inserts.sparesLower_iff (h : Inserts rank full newcomer held held') :
    SparesLower rank full newcomer held held' ↔ ¬full ∨ ∃ e ∈ held, rank newcomer ≤ rank e := by
  constructor
  · intro hspares
    by_cases hfull : full
    · by_contra hnone
      have hlower : ∀ e ∈ held, rank e < rank newcomer := by
        intro e he
        by_contra hle
        exact hnone (.inr ⟨e, he, not_lt.mp hle⟩)
      have hmem : newcomer ∈ held' := by
        cases h with
        | room => simp
        | displaced => simp
      exact hspares.refused hfull hlower hmem
    · exact .inl hfull
  · intro hcond
    cases h with
    | room hroom => exact ⟨fun e he _ => List.mem_append_left _ he, fun hfull => (hroom hfull).elim⟩
    | displaced hfull hsplit hvictim =>
      rename_i before after victim
      obtain ⟨worst, hworst, hle⟩ := hcond.resolve_left (not_not_intro hfull)
      have hvictimle : rank newcomer ≤ rank victim := by
        rw [hsplit] at hworst
        rcases List.mem_append.mp hworst with hmem | hmem
        · exact hle.trans (hvictim.before worst hmem).le
        · rcases List.mem_cons.mp hmem with rfl | hmem
          · exact hle
          · exact hle.trans (hvictim.after worst hmem)
      constructor
      · intro e he hlower
        have hne : e ≠ victim := by
          rintro rfl
          exact absurd hlower (not_lt.mpr hvictimle)
        rw [hsplit] at he
        simp only [List.mem_append, List.mem_cons] at he ⊢
        rcases he with he | he | he
        · exact .inl (.inl he)
        · exact absurd he hne
        · exact .inl (.inr he)
      · intro _ hlower
        exact absurd (hlower worst hworst) (not_lt.mpr hle)

/-! ### The scan for the victim -/

theorem IsOldestWorst.map_snd {before after : List (κ × α)} {victim : κ × α}
    (h : IsOldestWorst (fun e : κ × α => rank e.2) before victim after) :
    IsOldestWorst rank (before.map Prod.snd) victim.2 (after.map Prod.snd) where
  before := by
    intro e he
    obtain ⟨entry, hentry, rfl⟩ := List.mem_map.mp he
    exact h.before entry hentry
  after := by
    intro e he
    obtain ⟨entry, hentry, rfl⟩ := List.mem_map.mp he
    exact h.after entry hentry

variable (rank) in
/-- The first of the entries with the highest rank, if that is above `worst`. -/
def worstRanked : Option κ → ℤ → List (κ × α) → Option κ
  | best, _, [] => best
  | best, worst, (key, entry) :: rest =>
    if worst < (rank entry : ℤ) then worstRanked (some key) (rank entry) rest
    else worstRanked best worst rest

theorem worstRanked_cases {best : Option κ} {worst : ℤ} {l : List (κ × α)} {found : Option κ}
    (h : worstRanked rank best worst l = found) :
    (found = best ∧ ∀ e ∈ l, (rank e.2 : ℤ) ≤ worst) ∨
      ∃ before victim after, l = before ++ victim :: after ∧ found = some victim.1 ∧
        worst < rank victim.2 ∧ IsOldestWorst (fun e : κ × α => rank e.2) before victim after := by
  induction l generalizing best worst with
  | nil => exact .inl ⟨h.symm, by simp⟩
  | cons e rest ih =>
    obtain ⟨key, entry⟩ := e
    rw [worstRanked] at h
    split_ifs at h with hworse
    · right
      rcases ih h with ⟨rfl, hrest⟩ | ⟨before, victim, after, rfl, hfound, hlt, hvictim⟩
      · refine ⟨[], (key, entry), rest, rfl, rfl, hworse, by simp, ?_⟩
        intro e he
        exact_mod_cast hrest e he
      · refine ⟨(key, entry) :: before, victim, after, rfl, hfound, hworse.trans hlt, ?_, hvictim.after⟩
        intro e he
        rcases List.mem_cons.mp he with rfl | he
        · exact_mod_cast hlt
        · exact hvictim.before e he
    · rcases ih h with ⟨hfound, hrest⟩ | ⟨before, victim, after, rfl, hfound, hlt, hvictim⟩
      · left
        refine ⟨hfound, ?_⟩
        intro e he
        rcases List.mem_cons.mp he with rfl | he
        · exact not_lt.mp hworse
        · exact hrest e he
      · right
        refine ⟨(key, entry) :: before, victim, after, rfl, hfound, hlt, ?_, hvictim.after⟩
        intro e he
        rcases List.mem_cons.mp he with rfl | he
        · have hle := not_lt.mp hworse
          exact_mod_cast hle.trans_lt hlt
        · exact hvictim.before e he

/-- A store that holds something has a victim, the oldest of its worst entries. -/
theorem worstRanked_of_ne_nil {l : List (κ × α)} (hne : l ≠ []) :
    ∃ before victim after, l = before ++ victim :: after ∧
      worstRanked rank none (-1) l = some victim.1 ∧
      IsOldestWorst (fun e : κ × α => rank e.2) before victim after := by
  rcases worstRanked_cases (Eq.refl (worstRanked rank none (-1) l)) with
    ⟨-, hall⟩ | ⟨before, victim, after, hsplit, hfound, -, hvictim⟩
  · obtain ⟨e, he⟩ := List.exists_mem_of_ne_nil l hne
    have hle := hall e he
    omega
  · exact ⟨before, victim, after, hsplit, hfound, hvictim⟩

/-! ### Evicting until the bounds hold -/

variable (rank) in
/-- While too much is held, the oldest of the worst entries goes: what was held, the
victims in their order, and what is left. -/
inductive Evictions (tooMuch : List α → Prop) : List α → List α → List α → Prop
  | within {held : List α} (hwithin : ¬tooMuch held) : Evictions tooMuch held [] held
  | evict {before after victims left : List α} {victim : α} (hover : tooMuch (before ++ victim :: after))
      (hvictim : IsOldestWorst rank before victim after) (hrest : Evictions tooMuch (before ++ after) victims left) :
      Evictions tooMuch (before ++ victim :: after) (victim :: victims) left

namespace Evictions

variable {tooMuch : List α → Prop} {held victims left old : List α}

theorem not_tooMuch (h : Evictions rank tooMuch held victims left) : ¬tooMuch left := by
  induction h with
  | within hwithin => exact hwithin
  | evict _ _ _ ih => exact ih

theorem sublist (h : Evictions rank tooMuch held victims left) : left.Sublist held := by
  induction h with
  | within => exact List.Sublist.refl _
  | evict _ _ _ ih => exact ih.trans ((List.Sublist.refl _).append (List.sublist_cons_self _ _))

theorem mem_or_mem (h : Evictions rank tooMuch held victims left) : ∀ e ∈ held, e ∈ victims ∨ e ∈ left := by
  induction h with
  | within => exact fun e he => .inr he
  | @evict before after victims left victim _ _ _ ih =>
    intro e he
    rcases List.mem_append.mp he with he | he
    · exact (ih e (List.mem_append_left _ he)).imp_left (List.mem_cons_of_mem _)
    · rcases List.mem_cons.mp he with rfl | he
      · exact .inl (List.mem_cons_self ..)
      · exact (ih e (List.mem_append_right _ he)).imp_left (List.mem_cons_of_mem _)

/-- Without the newcomer nothing had to go. No entry of a lower rank than the
newcomer goes, and once the newcomer goes, all that is left has one. -/
theorem spares_lower (h : Evictions rank tooMuch (old ++ [newcomer]) victims left) (hold : ¬tooMuch old)
    (hmono : ∀ {l l' : List α}, l.Sublist l' → tooMuch l → tooMuch l') :
    (∀ victim ∈ victims, rank newcomer ≤ rank victim) ∧
      ((∃ kept, left = kept ++ [newcomer]) ∨ ∀ e ∈ left, rank e < rank newcomer) := by
  generalize hheld : old ++ [newcomer] = held at h
  induction h generalizing old with
  | within => exact ⟨by simp, .inl ⟨old, hheld.symm⟩⟩
  | @evict before after victims left victim _ hvictim hrest ih =>
    rcases List.eq_nil_or_concat after with rfl | ⟨init, last, rfl⟩
    · -- the newcomer itself goes, and the rest was within the bounds before it came
      obtain ⟨rfl, hlast⟩ := List.append_inj' hheld rfl
      obtain rfl := List.singleton_inj.mp hlast
      rw [List.append_nil] at hrest
      cases hrest with
      | within => exact ⟨by simp, .inr hvictim.before⟩
      | evict hover => exact absurd hover hold
    · have hsplit : old ++ [newcomer] = (before ++ victim :: init) ++ [last] := by
        rw [hheld]
        simp
      obtain ⟨rfl, hlast⟩ := List.append_inj' hsplit rfl
      obtain rfl := List.singleton_inj.mp hlast
      have hsub : (before ++ init).Sublist (before ++ victim :: init) :=
        (List.Sublist.refl _).append (List.sublist_cons_self _ _)
      have hwithin : ¬tooMuch (before ++ init) := fun hover => hold (hmono hsub hover)
      obtain ⟨hspared, hleft⟩ := ih hwithin (by simp)
      refine ⟨?_, hleft⟩
      intro e he
      rcases List.mem_cons.mp he with rfl | he
      · exact hvictim.after newcomer (by simp)
      · exact hspared e he

/-- When the newcomer is gone at the end, everything else is still there exactly if
it was of a lower rank. -/
theorem keeps_all_iff (h : Evictions rank tooMuch (old ++ [newcomer]) victims left) (hold : ¬tooMuch old)
    (hmono : ∀ {l l' : List α}, l.Sublist l' → tooMuch l → tooMuch l') (hgone : newcomer ∉ left) :
    (∀ e ∈ old, e ∈ left) ↔ ∀ e ∈ old, rank e < rank newcomer := by
  obtain ⟨hspared, hleft⟩ := h.spares_lower hold hmono
  have hlower : ∀ e ∈ left, rank e < rank newcomer := by
    rcases hleft with ⟨kept, rfl⟩ | hlower
    · exact absurd (List.mem_append_right _ (List.mem_singleton_self _)) hgone
    · exact hlower
  constructor
  · intro hkept e he
    exact hlower e (hkept e he)
  · intro hall e he
    rcases h.mem_or_mem e (List.mem_append_left _ he) with hvictim | hmem
    · exact absurd (hall e he) (not_lt.mpr (hspared e hvictim))
    · exact hmem

end Evictions
end Foundations
