import Arald.Foundations.FixedWindows
import Arald.Mesh.RateLimiter

/-!
# What the rate limit grants

Runs of `allow` over the calls of several peers. As long as no more peers call than
are tracked, the shared map forgets none of them, so each peer is counted in fixed
windows of its own and the answers to it do not depend on the others.
-/

namespace Arald

open Foundations

structure RateLimiterOptions where
  maxPacketsPerWindow : Option ℤ := none
  windowMs : Option ℤ := none
  maxTrackedPeers : Option (WithTop ℤ) := none

structure AllowCall where
  peerId : String
  now : ℤ
  deriving DecidableEq

/-- One call and its answer, and whether it opened a window of the peer. -/
structure AllowAnswer extends AllowCall where
  opens : Bool
  allowed : Bool
  deriving DecidableEq

namespace RateLimiter

def defaultMaxPacketsPerWindow : ℤ := 200

def defaultWindowMs : ℤ := 1000

def defaultMaxTrackedPeers : ℤ := 4096

/-- The constructor. -/
def ofOptions (options : RateLimiterOptions) : RateLimiter where
  windows := .empty (options.maxTrackedPeers.getD defaultMaxTrackedPeers)
  maxPacketsPerWindow := options.maxPacketsPerWindow.getD defaultMaxPacketsPerWindow
  windowMs := options.windowMs.getD defaultWindowMs

/-- The peer has no window, or the one it has is over. -/
def opensWindow (r : RateLimiter) (peerId : String) (now : ℤ) : Bool :=
  (r.windows.get? peerId).all fun window => r.windowMs ≤ now - window.windowStart

/-- The answers to calls made one after the other. -/
def answers : RateLimiter → List AllowCall → List AllowAnswer
  | _, [] => []
  | r, call :: calls =>
    { call with
      opens := r.opensWindow call.peerId call.now
      allowed := (r.allow call.peerId call.now).2 } ::
      answers (r.allow call.peerId call.now).1 calls

/-- The answers to one of the peers. -/
def answersTo (r : RateLimiter) (peerId : String) (calls : List AllowCall) : List AllowAnswer :=
  (r.answers calls).filter fun a => a.peerId = peerId

/-- The calls of one of the peers. -/
def callsOf (peerId : String) (calls : List AllowCall) : List AllowCall :=
  calls.filter fun call => call.peerId = peerId

/-- The answers of which only the first may have opened a window are one window of the peer, or a
part of one. -/
def InOneWindow (window : List AllowAnswer) : Prop := ∀ a ∈ window.tail, a.opens = false

/-- How many calls were allowed in the half-open interval from `t` to `t'`. -/
def allowedBetween (t t' : ℤ) (answers : List AllowAnswer) : ℕ :=
  answers.countP fun a => a.allowed && (t ≤ a.now && a.now < t')

/-- How many calls were allowed from `t` to `t'`, both included. -/
def allowedThrough (t t' : ℤ) (answers : List AllowAnswer) : ℕ :=
  answers.countP fun a => a.allowed && (t ≤ a.now && a.now ≤ t')

/-- A peer's window as a window of the general kind. -/
def fixedWindow (window : PeerWindow) : FixedWindow ℤ := ⟨window.windowStart, window.count⟩

/-- The answer without the name of the peer. -/
def event (a : AllowAnswer) : CountedEvent ℤ := ⟨a.now, a.opens, a.allowed⟩

variable {r r' : RateLimiter} {used : Finset String} {peerId : String} {now : ℤ} {calls : List AllowCall}

/-! ### One call -/

theorem opensWindow_eq (r : RateLimiter) (peerId : String) (now : ℤ) :
    r.opensWindow peerId now =
      FixedWindow.opens r.windowMs ((r.windows.get? peerId).map fixedWindow) now := by
  rw [opensWindow]
  cases r.windows.get? peerId with
  | none => rfl
  | some window => exact decide_eq_decide.mpr le_sub_iff_add_le'

theorem fixedWindow_counted (r : RateLimiter) (peerId : String) (now : ℤ) :
    fixedWindow { r.currentWindow peerId now with count := (r.currentWindow peerId now).count + 1 } =
      FixedWindow.counting r.windowMs ((r.windows.get? peerId).map fixedWindow) now := by
  rw [currentWindow]
  cases r.windows.get? peerId with
  | none => rfl
  | some window =>
    dsimp only [Option.map_some, FixedWindow.counting, fixedWindow]
    by_cases hover : window.windowStart + r.windowMs ≤ now
    · rw [if_pos hover, if_pos (le_sub_iff_add_le'.mpr hover)]
    · rw [if_neg hover, if_neg fun hle => hover (le_sub_iff_add_le'.mp hle)]

theorem allow_allowed (r : RateLimiter) (peerId : String) (now : ℤ) :
    (r.allow peerId now).2 = decide
      ((FixedWindow.counting r.windowMs ((r.windows.get? peerId).map fixedWindow) now).count ≤
        r.maxPacketsPerWindow.toNat) := by
  rw [← fixedWindow_counted]
  have hcount : ∀ n : ℕ, ((n + 1 : ℕ) : ℤ) ≤ r.maxPacketsPerWindow ↔ n + 1 ≤ r.maxPacketsPerWindow.toNat := by
    intro n
    omega
  exact decide_eq_decide.mpr (hcount _)

/-- With room for all the peers that call, a call changes the window of its own peer only. -/
theorem allow_windows (h : r.windows.Shelters used) (hpeer : peerId ∈ used) (now : ℤ) :
    (r.allow peerId now).1.windows.Shelters used ∧
      ∀ k ∈ used, ((r.allow peerId now).1.windows.get? k).map fixedWindow =
        if k = peerId then
          some (FixedWindow.counting r.windowMs ((r.windows.get? peerId).map fixedWindow) now)
        else (r.windows.get? k).map fixedWindow := by
  have hset := h.set hpeer
    { r.currentWindow peerId now with count := (r.currentWindow peerId now).count + 1 }
  refine ⟨hset.1, fun k hk => ?_⟩
  have hget := congrArg (Option.map fixedWindow) (hset.2 k hk)
  rw [apply_ite (Option.map fixedWindow), Option.map_some, fixedWindow_counted] at hget
  exact hget

/-! ### Runs -/

theorem answers_cons (r : RateLimiter) (call : AllowCall) (calls : List AllowCall) :
    r.answers (call :: calls) =
      { call with
        opens := r.opensWindow call.peerId call.now
        allowed := (r.allow call.peerId call.now).2 } ::
        (r.allow call.peerId call.now).1.answers calls := rfl

/-- Two limiters that hold the same window of a peer answer it alike, whatever the calls of
the other peers to one of them. -/
theorem answersTo_eq_of_same_window (hsame : r.maxPacketsPerWindow = r'.maxPacketsPerWindow)
    (hlength : r.windowMs = r'.windowMs) (h : r.windows.Shelters used) (h' : r'.windows.Shelters used)
    (hget : peerId ∈ used →
      (r.windows.get? peerId).map fixedWindow = (r'.windows.get? peerId).map fixedWindow)
    (hcalls : ∀ call ∈ calls, call.peerId ∈ used) :
    r.answersTo peerId calls = r'.answers (callsOf peerId calls) := by
  induction calls generalizing r r' with
  | nil => rfl
  | cons call calls ih =>
    have hmem : call.peerId ∈ used := hcalls call List.mem_cons_self
    have hrest : ∀ c ∈ calls, c.peerId ∈ used := fun c hc => hcalls c (List.mem_cons_of_mem _ hc)
    obtain ⟨hshelters, hwindows⟩ := allow_windows h hmem call.now
    by_cases hpeer : call.peerId = peerId
    · obtain ⟨hshelters', hwindows'⟩ := allow_windows h' hmem call.now
      have hheld := hget (hpeer ▸ hmem)
      rw [← hpeer] at hheld
      have hopens : r.opensWindow call.peerId call.now = r'.opensWindow call.peerId call.now := by
        rw [opensWindow_eq, opensWindow_eq, hheld, hlength]
      have hallowed : (r.allow call.peerId call.now).2 = (r'.allow call.peerId call.now).2 := by
        rw [allow_allowed, allow_allowed, hheld, hlength, hsame]
      have hsame' : (r.allow call.peerId call.now).1.maxPacketsPerWindow =
          (r'.allow call.peerId call.now).1.maxPacketsPerWindow := hsame
      have hnext := ih hsame' hlength hshelters hshelters' (fun hused => by
        rw [hwindows _ hused, hwindows' _ hused, if_pos hpeer.symm, if_pos hpeer.symm, hheld, hlength]) hrest
      rw [answersTo, answers_cons, List.filter_cons_of_pos (by simpa using hpeer), callsOf,
        List.filter_cons_of_pos (by simpa using hpeer), answers_cons, hopens, hallowed]
      exact congrArg _ hnext
    · have hsame' : (r.allow call.peerId call.now).1.maxPacketsPerWindow = r'.maxPacketsPerWindow := hsame
      have hnext := ih hsame' hlength hshelters h' (fun hused => by
        rw [hwindows _ hused, if_neg (Ne.symm hpeer)]
        exact hget hused) hrest
      rw [answersTo, answers_cons, List.filter_cons_of_neg (by simpa using hpeer), callsOf,
        List.filter_cons_of_neg (by simpa using hpeer)]
      exact hnext

/-- Calls of one peer are counted in fixed windows. -/
theorem answers_events (h : r.windows.Shelters used) (hpeer : peerId ∈ used)
    (hcalls : ∀ call ∈ calls, call.peerId = peerId) :
    (r.answers calls).map event =
      FixedWindow.outcomes r.maxPacketsPerWindow.toNat r.windowMs
        ((r.windows.get? peerId).map fixedWindow) (calls.map (·.now)) := by
  induction calls generalizing r with
  | nil => rfl
  | cons call calls ih =>
    obtain rfl : call.peerId = peerId := hcalls call List.mem_cons_self
    obtain ⟨hshelters, hwindows⟩ := allow_windows h hpeer call.now
    have hnext := ih hshelters fun c hc => hcalls c (List.mem_cons_of_mem _ hc)
    rw [hwindows _ hpeer, if_pos rfl] at hnext
    rw [answers_cons, List.map_cons, event, opensWindow_eq, allow_allowed, List.map_cons, FixedWindow.outcomes]
    exact congrArg _ hnext

/-! ### A limiter of its own for each peer -/

section

variable {options : RateLimiterOptions}

/-- No more peers call than are tracked. -/
def fits (options : RateLimiterOptions) (calls : List AllowCall) : Prop :=
  ((((calls.map (·.peerId)).toFinset.card : ℕ) : ℤ) : WithTop ℤ) ≤ (ofOptions options).windows.maxSize

theorem shelters_ofOptions (h : fits options calls) :
    (ofOptions options).windows.Shelters (calls.map (·.peerId)).toFinset :=
  .of_disjoint h fun k hk => by cases hk

theorem mem_callers {call : AllowCall} (h : call ∈ calls) :
    call.peerId ∈ (calls.map (·.peerId)).toFinset :=
  List.mem_toFinset.mpr (List.mem_map_of_mem h)

/-- The answers to a peer are the ones it would get alone. -/
theorem answersTo_eq_alone (h : fits options calls) (peerId : String) :
    (ofOptions options).answersTo peerId calls = (ofOptions options).answers (callsOf peerId calls) :=
  answersTo_eq_of_same_window rfl rfl (shelters_ofOptions h) (shelters_ofOptions h) (fun _ => rfl)
    fun _ hc => mem_callers hc

theorem answersTo_events (h : fits options calls) (peerId : String) :
    ((ofOptions options).answersTo peerId calls).map event =
      FixedWindow.outcomes (ofOptions options).maxPacketsPerWindow.toNat (ofOptions options).windowMs none
        ((callsOf peerId calls).map (·.now)) := by
  rw [answersTo_eq_alone h peerId]
  cases hcalls : callsOf peerId calls with
  | nil => rfl
  | cons first rest =>
    have hfirst : first ∈ callsOf peerId calls := by
      rw [hcalls]
      exact List.mem_cons_self
    obtain ⟨hmem, hname⟩ := List.mem_filter.mp hfirst
    have hpeer : peerId ∈ (calls.map (·.peerId)).toFinset := by
      rw [← of_decide_eq_true hname]
      exact mem_callers hmem
    rw [← hcalls]
    exact answers_events (shelters_ofOptions h) hpeer fun c hc =>
      of_decide_eq_true (List.mem_filter.mp hc).2

theorem allowed_in_window (h : fits options calls) {window : List AllowAnswer}
    (hpart : window <:+: (ofOptions options).answersTo peerId calls) (hwindow : InOneWindow window) :
    window.countP (·.allowed) ≤ (ofOptions options).maxPacketsPerWindow.toNat := by
  cases window with
  | nil => exact Nat.zero_le _
  | cons first rest =>
    have hevents := hpart.map event
    rw [answersTo_events h, List.map_cons] at hevents
    have hcovered : ∀ a ∈ rest.map event, a.opens = false := by
      intro a ha
      obtain ⟨b, hb, rfl⟩ := List.mem_map.mp ha
      exact hwindow b hb
    have hcount := FixedWindow.countP_allowed_le hevents hcovered
    rwa [← List.map_cons, List.countP_map] at hcount

theorem allowedThrough_le (h : fits options calls) (hsorted : (calls.map (·.now)).Pairwise (· ≤ ·))
    (hlength : 0 < (ofOptions options).windowMs) (t : ℤ) :
    allowedThrough t (t + (ofOptions options).windowMs) ((ofOptions options).answersTo peerId calls) ≤
      2 * (ofOptions options).maxPacketsPerWindow.toNat := by
  have hcalls : ((callsOf peerId calls).map (·.now)).Pairwise (· ≤ ·) :=
    hsorted.sublist (List.filter_sublist.map _)
  have hcount :=
    FixedWindow.allowedWithin_le (ofOptions options).maxPacketsPerWindow.toNat none t hlength hcalls
  rwa [← answersTo_events h, FixedWindow.allowedWithin, List.countP_map] at hcount

theorem allowedBetween_le (h : fits options calls) (hsorted : (calls.map (·.now)).Pairwise (· ≤ ·)) (t : ℤ) :
    allowedBetween t (t + (ofOptions options).windowMs) ((ofOptions options).answersTo peerId calls) ≤
      2 * (ofOptions options).maxPacketsPerWindow.toNat := by
  by_cases hlength : 0 < (ofOptions options).windowMs
  · refine le_trans (List.countP_mono_left fun a _ hin => ?_) (allowedThrough_le h hsorted hlength t)
    simp only [Bool.and_eq_true, decide_eq_true_eq] at hin ⊢
    exact ⟨hin.1, hin.2.1, hin.2.2.le⟩
  · -- the interval is empty
    have hnone : allowedBetween t (t + (ofOptions options).windowMs)
        ((ofOptions options).answersTo peerId calls) = 0 := by
      refine List.countP_eq_zero.mpr fun a _ hin => ?_
      simp only [Bool.and_eq_true, decide_eq_true_eq] at hin
      omega
    rw [hnone]
    exact Nat.zero_le _

end

/-- When no more peers call than are tracked, each is answered as if it were alone, at most
`maxPacketsPerWindow` of its calls are allowed in one of its windows, and at most twice as many
in an interval as long as a window. -/
theorem isolated_and_bounded (options : RateLimiterOptions) (calls : List AllowCall) (peerId : String)
    (hfits : ((((calls.map (·.peerId)).toFinset.card : ℕ) : ℤ) : WithTop ℤ) ≤
      (ofOptions options).windows.maxSize)
    (hsorted : (calls.map (·.now)).Pairwise (· ≤ ·)) :
    (ofOptions options).answersTo peerId calls = (ofOptions options).answers (callsOf peerId calls) ∧
      (∀ window, window <:+: (ofOptions options).answersTo peerId calls → InOneWindow window →
        window.countP (·.allowed) ≤ (ofOptions options).maxPacketsPerWindow.toNat) ∧
      (∀ t, allowedBetween t (t + (ofOptions options).windowMs)
        ((ofOptions options).answersTo peerId calls) ≤ 2 * (ofOptions options).maxPacketsPerWindow.toNat) ∧
      (0 < (ofOptions options).windowMs → ∀ t, allowedThrough t (t + (ofOptions options).windowMs)
        ((ofOptions options).answersTo peerId calls) ≤ 2 * (ofOptions options).maxPacketsPerWindow.toNat) :=
  ⟨answersTo_eq_alone hfits peerId, fun _ hpart hwindow => allowed_in_window hfits hpart hwindow,
    allowedBetween_le hfits hsorted, fun hlength => allowedThrough_le hfits hsorted hlength⟩

/-- Two peers, each over its budget. -/
theorem isolated_and_bounded_pair :
    let options : RateLimiterOptions :=
      { maxPacketsPerWindow := some 1, windowMs := some 10, maxTrackedPeers := some 2 }
    let calls : List AllowCall := [⟨"p", 0⟩, ⟨"q", 3⟩, ⟨"p", 9⟩, ⟨"q", 9⟩, ⟨"p", 10⟩]
    ((ofOptions options).answersTo "p" calls).map (·.allowed) = [true, false, true] ∧
      ∀ t, allowedThrough t (t + 10) ((ofOptions options).answersTo "p" calls) ≤ 2 := by
  have hbound := isolated_and_bounded
    { maxPacketsPerWindow := some 1, windowMs := some 10, maxTrackedPeers := some 2 }
    [⟨"p", 0⟩, ⟨"q", 3⟩, ⟨"p", 9⟩, ⟨"q", 9⟩, ⟨"p", 10⟩] "p" (by decide) (by decide)
  exact ⟨by decide, hbound.2.2.2 (by decide)⟩

end RateLimiter
end Arald
