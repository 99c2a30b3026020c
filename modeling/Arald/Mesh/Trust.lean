import Arald.Foundations.JsValue
import Arald.Foundations.OrderedMap

/-!
# Trust levels

The bounded table of `trust.ts`: how far this node trusts whom.
-/

namespace Arald

open Foundations

inductive TrustLevel where
  | unknown
  | seen
  | verified
  | trusted
  | admin
  deriving DecidableEq

/-- The numeric rank of a trust level, lower being less trusted. -/
def trustRank : TrustLevel → ℤ
  | .unknown => 0
  | .seen => 1
  | .verified => 2
  | .trusted => 3
  | .admin => 4

def meetsTrustLevel (level threshold : TrustLevel) : Bool := trustRank threshold ≤ trustRank level

/-- Above every rank that a peer can have. -/
def ownContentTrustRank : ℤ := trustRank .admin + 1

structure TrustManager where
  levels : OrderedMap String TrustLevel
  maxSize : WithTop ℤ

namespace TrustManager

def get (t : TrustManager) (nodeId : String) : TrustLevel := (t.levels.get? nodeId).getD .unknown

/-- The rank of a publisher for the content store of a node: own content comes first. -/
def publisherRank (t : TrustManager) (nodeId publisherId : String) : ℤ :=
  if publisherId = nodeId then ownContentTrustRank else trustRank (t.get publisherId)

/-- The eviction scan: the oldest entry of the lowest tier present, stopping at
the first `UNKNOWN` entry. -/
def evictKey : Option String → WithTop ℤ → List (String × TrustLevel) → Option String
  | best, _, [] => best
  | best, bestRank, (id, level) :: rest =>
    if (trustRank level : WithTop ℤ) < bestRank then
      if level = .unknown then some id else evictKey (some id) (trustRank level) rest
    else evictKey best bestRank rest

def ensureCapacityFor (t : TrustManager) (nodeId : String) : TrustManager :=
  if t.levels.has nodeId || (((t.levels.size : ℕ) : ℤ) : WithTop ℤ) < t.maxSize then t
  else
    match evictKey none ⊤ t.levels.entries with
    | some key => { t with levels := t.levels.delete key }
    | none => t

def raiseTo (t : TrustManager) (nodeId : String) (level : TrustLevel) : TrustManager :=
  if trustRank (t.get nodeId) < trustRank level then
    { t with levels := t.levels.set nodeId level }
  else t

def markSeen (t : TrustManager) (nodeId : String) : TrustManager :=
  (t.ensureCapacityFor nodeId).raiseTo nodeId .seen

def markVerified (t : TrustManager) (nodeId : String) : TrustManager :=
  (t.ensureCapacityFor nodeId).raiseTo nodeId .verified

/-- The operator's assignment of any level. -/
def set (t : TrustManager) (nodeId : String) (level : TrustLevel) : TrustManager :=
  let t := t.ensureCapacityFor nodeId
  { t with levels := t.levels.set nodeId level }

end TrustManager

end Arald
