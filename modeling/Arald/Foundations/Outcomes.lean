import Mathlib

/-!
# Computations that may fail

What holds of the value of a computation when it returns one, and which errors it may end with
otherwise, through sequences and loops over an index.
-/

namespace Foundations

universe u v

variable {ε : Type v} {α β σ : Type u} {allowed : ε → Prop} {post post' : α → Prop} {r : Except ε α} {n : ℕ}

/-- The computation ends with an allowed error or a value with the property. -/
def Ensures (allowed : ε → Prop) (post : α → Prop) : Except ε α → Prop
  | .ok a => post a
  | .error e => allowed e

theorem Ensures.mono (h : Ensures allowed post r) (hpost : ∀ a, post a → post' a) : Ensures allowed post' r := by
  cases r with
  | ok a => exact hpost a h
  | error e => exact h

theorem Ensures.pure {a : α} (h : post a) : Ensures allowed post (Pure.pure a) := h

theorem Ensures.bind {post' : β → Prop} {f : α → Except ε β} (h : Ensures allowed post r)
    (hf : ∀ a, post a → Ensures allowed post' (f a)) : Ensures allowed post' (r >>= f) := by
  cases r with
  | ok a => exact hf a h
  | error e => exact h

theorem Ensures.ite {c : Prop} [Decidable c] {r' : Except ε α} (hpos : c → Ensures allowed post r)
    (hneg : ¬c → Ensures allowed post r') : Ensures allowed post (if c then r else r') := by
  by_cases hc : c
  · rw [if_pos hc]
    exact hpos hc
  · rw [if_neg hc]
    exact hneg hc

theorem Ensures.of_eq_ok {a : α} (h : Ensures allowed post r) (hr : r = .ok a) : post a := by
  subst hr
  exact h

theorem Ensures.of_eq_error {e : ε} (h : Ensures allowed post r) (hr : r = .error e) : allowed e := by
  subst hr
  exact h

theorem ok_bind (a : α) (f : α → Except ε β) : (Except.ok a >>= f) = f a := rfl

/-- Where each call succeeds, the results are those of the elements. -/
theorem eq_filterMap_of_mapM {f : α → Except ε β} {l : List α} {r : List β}
    (h : l.mapM f = .ok r) : r = l.filterMap fun a => (f a).toOption := by
  induction l generalizing r with
  | nil => exact (Except.ok.inj h).symm
  | cons a l ih =>
    rw [List.mapM_cons] at h
    cases ha : f a with
    | error e => rw [ha] at h; cases h
    | ok b =>
      cases hl : l.mapM f with
      | error e => rw [ha, ok_bind, hl] at h; cases h
      | ok bs =>
        rw [ha, ok_bind, hl, ok_bind] at h
        have hcons : (a :: l).filterMap (fun a => (f a).toOption) =
            b :: l.filterMap fun a => (f a).toOption :=
          List.filterMap_cons_some (by rw [ha]; rfl)
        rw [hcons, ← ih hl]
        exact (Except.ok.inj h).symm

/-- What a filter that may fail keeps. -/
theorem mem_filterM {α : Type} {p : α → Except ε Bool} {l r : List α} (h : l.filterM p = .ok r) :
    ∀ a ∈ r, a ∈ l ∧ p a = .ok true := by
  have haux : ∀ (l acc r : List α), l.filterAuxM p acc = .ok r →
      ∀ a ∈ r, a ∈ acc ∨ a ∈ l ∧ p a = .ok true := by
    intro l
    induction l with
    | nil =>
      intro acc r hr a ha
      rw [List.filterAuxM] at hr
      exact Or.inl (Except.ok.inj hr ▸ ha)
    | cons b l ih =>
      intro acc r hr a ha
      rw [List.filterAuxM] at hr
      cases hb : p b with
      | error e =>
        rw [hb] at hr
        cases hr
      | ok kept =>
        rw [hb, ok_bind] at hr
        rcases ih _ r hr a ha with hacc | ⟨hl, hp⟩
        · cases kept with
          | false => exact Or.inl hacc
          | true =>
            rcases List.mem_cons.mp hacc with rfl | hacc
            · exact Or.inr ⟨List.mem_cons_self, hb⟩
            · exact Or.inl hacc
        · exact Or.inr ⟨List.mem_cons_of_mem b hl, hp⟩
  rw [List.filterM] at h
  cases hr : l.filterAuxM p [] with
  | error e =>
    rw [hr] at h
    cases h
  | ok r' =>
    rw [hr, ok_bind] at h
    obtain rfl := Except.ok.inj h
    intro a ha
    exact (haux l [] r' hr a (List.mem_reverse.mp ha)).resolve_left List.not_mem_nil

/-- What every step of a loop preserves holds at its end. -/
theorem foldlM_invariant (inv : σ → Prop) {f : σ → α → Except ε σ} {l : List α} {s s' : σ}
    (hstep : ∀ a ∈ l, ∀ s s', inv s → f s a = .ok s' → inv s') (hstart : inv s)
    (h : l.foldlM f s = .ok s') : inv s' := by
  induction l generalizing s with
  | nil => exact Except.ok.inj h ▸ hstart
  | cons a l ih =>
    rw [List.foldlM_cons] at h
    cases ha : f s a with
    | error e =>
      rw [ha] at h
      cases h
    | ok mid =>
      rw [ha, ok_bind] at h
      exact ih (fun b hb => hstep b (List.mem_cons_of_mem a hb))
        (hstep a List.mem_cons_self s mid hstart ha) h

/-- What holds at each index of a loop holds at its end. -/
theorem Ensures.foldlM_range {f : σ → ℕ → Except ε σ} {s : σ} (inv : ℕ → σ → Prop) (hstart : inv 0 s)
    (hstep : ∀ i s, i < n → inv i s → Ensures allowed (inv (i + 1)) (f s i)) :
    Ensures allowed (inv n) ((List.range n).foldlM f s) := by
  induction n with
  | zero => exact hstart
  | succ n ih =>
    rw [List.range_succ, List.foldlM_append]
    refine Ensures.bind (ih fun i s hi => hstep i s (Nat.lt_succ_of_lt hi)) fun s' hs' => ?_
    rw [List.foldlM_cons]
    exact Ensures.bind (hstep n s' (Nat.lt_succ_self n) hs') fun _ h => h

/-- A loop whose states are known. -/
theorem foldlM_range_eq_ok {f : σ → ℕ → Except ε σ} (states : ℕ → σ)
    (hstep : ∀ i < n, f (states i) i = .ok (states (i + 1))) :
    (List.range n).foldlM f (states 0) = .ok (states n) := by
  induction n with
  | zero => rfl
  | succ n ih =>
    rw [List.range_succ, List.foldlM_append, ih fun i hi => hstep i (Nat.lt_succ_of_lt hi)]
    change (List.foldlM f (states n) [n] : Except ε σ) = _
    rw [List.foldlM_cons, hstep n (Nat.lt_succ_self n)]
    rfl

end Foundations
