import Mathlib

/-!
# Registers that keep the newest value

A register is offered values with stamps and keeps the newest, the first of them
when stamps are equal. What it holds does not depend on the order of the offers or
on how often each was made, as long as different values have different stamps.

Where a stamp is a claim of the sender, a receiver may count a value that claims to
come from the future as one that comes from the moment of its reception.
-/

namespace Foundations

variable {α τ : Type*} [LinearOrder τ] (stamp : α → τ)

/-- What a register holds after an offer. -/
def keepNewest (held : Option α) (x : α) : Option α :=
  if held.any fun h => stamp x ≤ stamp h then held else some x

/-- What an empty register holds after some offers. -/
def newest (offers : List α) : Option α := offers.foldl (keepNewest stamp) none

/-- One of the offers that no other is newer than. -/
structure IsNewest (x : α) (offers : List α) : Prop where
  mem : x ∈ offers
  le : ∀ y ∈ offers, stamp y ≤ stamp x

variable {stamp} {offers : List α} {x : α}

@[simp] theorem newest_nil : newest stamp [] = none := rfl

theorem newest_concat (offers : List α) (x : α) :
    newest stamp (offers ++ [x]) = keepNewest stamp (newest stamp offers) x := by
  rw [newest, List.foldl_append, List.foldl_cons, List.foldl_nil, ← newest]

theorem keepNewest_of_le {h : α} (hle : stamp x ≤ stamp h) : keepNewest stamp (some h) x = some h := by
  simp [keepNewest, hle]

theorem keepNewest_of_lt {held : Option α} (hlt : ∀ h, held = some h → stamp h < stamp x) :
    keepNewest stamp held x = some x := by
  cases held with
  | none => rfl
  | some h => simp [keepNewest, not_le.mpr (hlt h rfl)]

variable (stamp) in
theorem keepNewest_cases (held : Option α) (x : α) :
    (∃ h, held = some h ∧ stamp x ≤ stamp h ∧ keepNewest stamp held x = some h) ∨
      ((∀ h, held = some h → stamp h < stamp x) ∧ keepNewest stamp held x = some x) := by
  cases held with
  | none => exact .inr ⟨by simp, rfl⟩
  | some h =>
    rcases le_or_gt (stamp x) (stamp h) with hle | hlt
    · exact .inl ⟨h, rfl, hle, keepNewest_of_le hle⟩
    · have hnewer : ∀ h', some h = some h' → stamp h' < stamp x := by
        intro h' hh'
        obtain rfl := Option.some_inj.mp hh'
        exact hlt
      exact .inr ⟨hnewer, keepNewest_of_lt hnewer⟩

variable (stamp) in
theorem newest_isSome (h : offers ≠ []) : ∃ x, newest stamp offers = some x := by
  obtain ⟨front, last, rfl⟩ := (List.eq_nil_or_concat offers).resolve_left h
  rw [List.concat_eq_append, newest_concat]
  rcases keepNewest_cases stamp (newest stamp front) last with
    ⟨held, -, -, hkeep⟩ | ⟨-, hkeep⟩
  · exact ⟨held, hkeep⟩
  · exact ⟨last, hkeep⟩

/-- After any offers the register holds a newest of them. -/
theorem isNewest_of_newest (h : newest stamp offers = some x) : IsNewest stamp x offers := by
  induction offers using List.reverseRecOn generalizing x with
  | nil => cases h
  | append_singleton offers y ih =>
    rw [newest_concat] at h
    rcases keepNewest_cases stamp (newest stamp offers) y with
      ⟨held, hheld, hle, hkeep⟩ | ⟨hnewer, hkeep⟩
    · obtain rfl := Option.some_inj.mp (hkeep.symm.trans h)
      have hold := ih hheld
      refine ⟨List.mem_append_left _ hold.mem, ?_⟩
      intro z hz
      rcases List.mem_append.mp hz with hz | hz
      · exact hold.le z hz
      · obtain rfl := List.mem_singleton.mp hz
        exact hle
    · obtain rfl := Option.some_inj.mp (hkeep.symm.trans h)
      refine ⟨List.mem_append_right _ (List.mem_singleton_self _), ?_⟩
      intro z hz
      rcases List.mem_append.mp hz with hz | hz
      · cases hheld : newest stamp offers with
        | none =>
          obtain ⟨held, hsome⟩ := newest_isSome stamp (List.ne_nil_of_mem hz)
          rw [hheld] at hsome
          cases hsome
        | some held => exact ((ih hheld).le z hz).trans (hnewer held hheld).le
      · obtain rfl := List.mem_singleton.mp hz
        exact le_rfl

/-- Where stamps tell the offers apart, the newest is held, in whatever order and
however often they were made. -/
theorem IsNewest.newest_eq (h : IsNewest stamp x offers)
    (hdistinct : ∀ y ∈ offers, stamp y = stamp x → y = x) : newest stamp offers = some x := by
  obtain ⟨y, hy⟩ := newest_isSome stamp (List.ne_nil_of_mem h.mem)
  have hnewest := isNewest_of_newest hy
  rw [hy, hdistinct y hnewest.mem (le_antisymm (h.le y hnewest.mem) (hnewest.le x h.mem))]

/-- An offer newer than all before it is held. -/
theorem newest_concat_of_lt (h : ∀ y ∈ offers, stamp y < stamp x) : newest stamp (offers ++ [x]) = some x := by
  rw [newest_concat]
  rcases keepNewest_cases stamp (newest stamp offers) x with ⟨held, hheld, hle, -⟩ | ⟨-, hkeep⟩
  · exact absurd hle (not_le.mpr (h held (isNewest_of_newest hheld).mem))
  · exact hkeep

/-! ### Claimed stamps -/

/-- The reception of a value with a claimed stamp. -/
structure Reception (ρ τ : Type*) where
  content : ρ
  stamp : τ
  receivedAt : τ
  deriving DecidableEq

/-- What a receiver keeps that does not believe in the future. -/
def Reception.clamped {ρ : Type*} (r : Reception ρ τ) : ρ × τ := (r.content, min r.stamp r.receivedAt)

variable {ρ : Type*}

/-- A register holds the newest of the values it received, the future counted as the
present. So it holds the value with the greatest stamp when none of them was in the
future, and a value that is not in the future itself is held when each one before it
is older, or was received before it was stamped. -/
structure HoldsNewest (received : List (Reception ρ τ)) (held : Option (ρ × τ)) : Prop where
  newest : received ≠ [] → ∃ h, held = some h ∧ IsNewest Prod.snd h (received.map Reception.clamped)
  genuine : (∀ r ∈ received, r.stamp ≤ r.receivedAt) →
    (∀ r ∈ received, ∀ r' ∈ received, r.stamp = r'.stamp → r.content = r'.content) →
      ∀ r ∈ received, (∀ r' ∈ received, r'.stamp ≤ r.stamp) → held = some (r.content, r.stamp)
  unblocked : ∀ front r, received = front ++ [r] → r.stamp ≤ r.receivedAt →
    (∀ r' ∈ front, r'.stamp < r.stamp ∨ r'.receivedAt < r.stamp) → held = some (r.content, r.stamp)

theorem HoldsNewest.of_eq {received : List (Reception ρ τ)} {held : Option (ρ × τ)}
    (h : held = Foundations.newest Prod.snd (received.map Reception.clamped)) :
    HoldsNewest received held where
  newest hne := by
    obtain ⟨x, hx⟩ := newest_isSome (Prod.snd : ρ × τ → τ) (mt List.map_eq_nil_iff.mp hne)
    exact ⟨x, h.trans hx, isNewest_of_newest hx⟩
  genuine := by
    intro hpresent hdistinct r hr hgreatest
    have hclamped : ∀ r ∈ received, r.clamped = (r.content, r.stamp) := by
      intro r hr
      rw [Reception.clamped, min_eq_left (hpresent r hr)]
    rw [h, ← hclamped r hr]
    apply IsNewest.newest_eq
    · refine ⟨List.mem_map_of_mem hr, ?_⟩
      intro y hy
      obtain ⟨r', hr', rfl⟩ := List.mem_map.mp hy
      rw [hclamped r' hr', hclamped r hr]
      exact hgreatest r' hr'
    · intro y hy hsame
      obtain ⟨r', hr', rfl⟩ := List.mem_map.mp hy
      rw [hclamped r' hr', hclamped r hr] at hsame ⊢
      have hstamp : r'.stamp = r.stamp := hsame
      rw [hdistinct r' hr' r hr hstamp, hstamp]
  unblocked := by
    rintro front r rfl hpresent hold
    have hclamped : r.clamped = (r.content, r.stamp) := by
      rw [Reception.clamped, min_eq_left hpresent]
    rw [h, List.map_append, List.map_cons, List.map_nil, ← hclamped]
    apply newest_concat_of_lt
    intro y hy
    obtain ⟨r', hr', rfl⟩ := List.mem_map.mp hy
    rw [hclamped]
    exact min_lt_iff.mpr (hold r' hr')

end Foundations
