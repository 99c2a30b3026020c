import Arald.Foundations.JsValue

/-!
# Relay policy

`relay-policy.ts`: whether this node spends effort on other peers' traffic. The
resource snapshot is self-reported and read anew at every decision.
-/

namespace Arald

open Foundations

inductive RelayMode where
  | off
  | always
  | whenCharging
  | batteryAbove
  deriving DecidableEq

structure ResourceState where
  batteryPercent : Option JsNumber
  charging : Option Bool

structure RelayPolicy where
  mode : RelayMode
  batteryThreshold : JsNumber

namespace RelayPolicy

def canRelayNow (policy : RelayPolicy) (resources : ResourceState) : Bool :=
  match policy.mode with
  | .off => false
  | .always => true
  | .whenCharging => resources.charging = some true
  | .batteryAbove =>
    match resources.batteryPercent with
    | some percent => policy.batteryThreshold.le percent
    | none => false

end RelayPolicy
end Arald
