import Arald.Store.BoundedFifoMap

/-!
# Per-peer rate limiting

`rate-limit.ts`: a fixed window for every peer id, in a bounded map with plain
first-in eviction.
-/

namespace Arald

open Foundations

structure PeerWindow where
  count : ℕ
  windowStart : ℤ
  deriving DecidableEq

structure RateLimiter where
  windows : BoundedFifoMap String PeerWindow
  maxPacketsPerWindow : ℤ
  windowMs : ℤ

namespace RateLimiter

/-- The window a packet from `peerId` falls into, new when the last one is over. -/
def currentWindow (r : RateLimiter) (peerId : String) (now : ℤ) : PeerWindow :=
  match r.windows.get? peerId with
  | some window => if r.windowMs ≤ now - window.windowStart then ⟨0, now⟩ else window
  | none => ⟨0, now⟩

/-- Count one packet and say whether it is within the budget. -/
def allow (r : RateLimiter) (peerId : String) (now : ℤ) : RateLimiter × Bool :=
  let window := r.currentWindow peerId now
  let counted : PeerWindow := { window with count := window.count + 1 }
  ({ r with windows := r.windows.set none peerId counted },
    ((counted.count : ℕ) : ℤ) ≤ r.maxPacketsPerWindow)

def reset (r : RateLimiter) (peerId : String) : RateLimiter :=
  { r with windows := r.windows.delete peerId }

end RateLimiter
end Arald
