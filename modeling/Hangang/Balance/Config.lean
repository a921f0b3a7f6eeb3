import Hangang.Balance.Node
import Hangang.Framework.Bytes
import Hangang.Framework.Except

/-! # Balancer Configuration

    The whole `BalanceConfig` of a route, with the fields that only selection, the
    probes or the comparison of two generations read, and what its validation says
    about the weights. The policies that the nodes read are those of `Node`. -/

namespace Balance

inductive Mode where
  | roundRobin
  | leastConnections
  deriving DecidableEq, Repr

/-- `ActiveHealthPolicy` with what a probe sends, and when. -/
structure ProbePolicy extends ActiveHealthPolicy where
  path : Bytes
  host : Option Bytes
  intervalMs : UInt64
  timeoutMs : UInt64
  deriving DecidableEq, Repr

/-- `PassiveHealthPolicy` with the statuses that are never counted. -/
structure PassivePolicy extends PassiveHealthPolicy where
  healthyStatuses : List UInt16
  deriving DecidableEq, Repr

/-- `BalanceConfig` as it is read, before `validate`. -/
structure RouteBalance where
  mode : Mode
  weights : List UInt16
  health : Option HealthPolicy
  activeHealth : Option ProbePolicy
  passiveHealth : Option PassivePolicy
  deriving DecidableEq, Repr

/-! ## Validated configurations -/

/-- Weights as `validate` and `validate_backends` accept them for a number of
    backends: none, or one for each. -/
structure ValidWeights (weights : List UInt16) (count : Nat) : Prop where
  length : weights = [] ∨ weights.length = count
  range : ∀ w ∈ weights, 1 ≤ w ∧ w ≤ 1000

end Balance
