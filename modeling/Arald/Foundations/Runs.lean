import Mathlib

/-!
# Runs of event-driven systems

A system reacts to events. The step function is executable and partial: `none`
means that the environment cannot produce the event in the state. Everything a
run may depend on besides the state (arriving data, clock readings, the outcome
of a transmission) is part of the event.

`ReachableUnder S C` holds of the states of runs all of whose steps satisfy the
condition `C`; `Reachable` is the special case without a condition. The
induction over a run is stated here once, in three forms.
-/

namespace Foundations

/-- A transition system with executable, event-labelled steps. -/
structure System (σ : Type*) (ε : Type*) where
  Init : σ → Prop
  step : σ → ε → Option σ

namespace System

variable {σ ε : Type*} (S : System σ ε)

/-- States of runs in which `C` holds of every step taken. -/
inductive ReachableUnder (C : σ → ε → Prop) : σ → Prop
  | init {s : σ} : S.Init s → ReachableUnder C s
  | step {s s' : σ} {e : ε} :
      ReachableUnder C s → C s e → S.step s e = some s' → ReachableUnder C s'

/-- States of arbitrary runs. -/
abbrev Reachable : σ → Prop := S.ReachableUnder fun _ _ => True

variable {S} {C D : σ → ε → Prop} {s s' : σ}

theorem ReachableUnder.mono (hCD : ∀ s e, C s e → D s e) (h : S.ReachableUnder C s) :
    S.ReachableUnder D s := by
  induction h with
  | init hinit => exact .init hinit
  | step _ hC hstep ih => exact .step ih (hCD _ _ hC) hstep

theorem ReachableUnder.reachable (h : S.ReachableUnder C s) : S.Reachable s :=
  h.mono fun _ _ _ => trivial

/-- The invariant rule: initial states satisfy `I`, and every step allowed by
the condition preserves it. -/
theorem ReachableUnder.invariant {I : σ → Prop} (h : S.ReachableUnder C s)
    (hinit : ∀ s, S.Init s → I s)
    (hstep : ∀ s e s', I s → C s e → S.step s e = some s' → I s') : I s := by
  induction h with
  | init h0 => exact hinit _ h0
  | step _ hC hs ih => exact hstep _ _ _ ih hC hs

/-- The invariant rule relative to an invariant `J` that is already known. -/
theorem ReachableUnder.invariant_of {I J : σ → Prop} (h : S.ReachableUnder C s)
    (hJ : ∀ s, S.ReachableUnder C s → J s)
    (hinit : ∀ s, S.Init s → I s)
    (hstep : ∀ s e s', J s → I s → C s e → S.step s e = some s' → J s' → I s') : I s := by
  induction h with
  | init h0 => exact hinit _ h0
  | step hr hC hs ih => exact hstep _ _ _ (hJ _ hr) ih hC hs (hJ _ (.step hr hC hs))

variable (S)

/-- Run a list of events; `none` as soon as one of them is impossible. -/
def run : σ → List ε → Option σ
  | s, [] => some s
  | s, e :: es => (S.step s e).bind fun s' => run s' es

@[simp] theorem run_nil (s : σ) : S.run s [] = some s := rfl

theorem run_cons (s : σ) (e : ε) (es : List ε) :
    S.run s (e :: es) = (S.step s e).bind fun s' => S.run s' es := rfl

variable {S}

theorem Reachable.run {es : List ε} (h : S.Reachable s) (hrun : S.run s es = some s') :
    S.Reachable s' := by
  induction es generalizing s with
  | nil =>
    obtain rfl : s = s' := by simpa using hrun
    exact h
  | cons e es ih =>
    obtain ⟨t, hstep, hrest⟩ := Option.bind_eq_some_iff.mp hrun
    exact ih (.step h trivial hstep) hrest

/-- A concrete run from an initial state ends in a reachable state. -/
theorem reachable_of_run {es : List ε} (hinit : S.Init s) (hrun : S.run s es = some s') :
    S.Reachable s' :=
  Reachable.run (.init hinit) hrun

/-! ### Runs under a decidable condition -/

/-- Run a list of events as long as each of them satisfies the test. -/
def runUnder (S : System σ ε) (c : σ → ε → Bool) : σ → List ε → Option σ
  | s, [] => some s
  | s, e :: es => if c s e then (S.step s e).bind fun s' => runUnder S c s' es else none

theorem ReachableUnder.runUnder {c : σ → ε → Bool} {es : List ε}
    (h : S.ReachableUnder (fun s e => c s e = true) s) (hrun : S.runUnder c s es = some s') :
    S.ReachableUnder (fun s e => c s e = true) s' := by
  induction es generalizing s with
  | nil =>
    obtain rfl : s = s' := by simpa [System.runUnder] using hrun
    exact h
  | cons e es ih =>
    rw [System.runUnder] at hrun
    split_ifs at hrun with hc
    obtain ⟨t, hstep, hrest⟩ := Option.bind_eq_some_iff.mp hrun
    exact ih (.step h hc hstep) hrest

theorem reachableUnder_of_runUnder {c : σ → ε → Bool} {es : List ε} (hinit : S.Init s)
    (hrun : S.runUnder c s es = some s') : S.ReachableUnder (fun s e => c s e = true) s' :=
  ReachableUnder.runUnder (.init hinit) hrun

end System
end Foundations
