import Hangang.MemberAdmission

/-! # Balancer Nodes

    The health of one backend node as `balance` keeps it: a record of atomics
    that are reset together when the endpoint behind the node is replaced and
    updated by four kinds of feedback.

    The feedback functions are written as sequences of atomic instructions in
    the order of the source. Run without interruption they are the operations
    that `EpochFence` takes as steps. -/

namespace Balance

/-! ## Configuration -/

structure HealthPolicy where
  failureThreshold : UInt32
  cooldownMs : UInt64
  deriving DecidableEq, Repr

inductive InitialHealthState where
  | healthy
  | checking
  deriving DecidableEq, Repr

structure ActiveHealthPolicy where
  healthyStatuses : List UInt16
  unhealthyStatuses : List UInt16
  healthySuccesses : UInt32
  unhealthyHttpFailures : UInt32
  unhealthyTcpFailures : UInt32
  unhealthyTimeouts : UInt32
  initialState : InitialHealthState
  deriving DecidableEq, Repr

structure PassiveHealthPolicy where
  unhealthyStatuses : List UInt16
  unhealthyHttpFailures : UInt32
  unhealthyTcpFailures : UInt32
  unhealthyTimeouts : UInt32
  deriving DecidableEq, Repr

/-- The health policies of a `BalanceConfig`, with the two conflicts that
    `validate` refuses. -/
structure BalanceConfig where
  health : Option HealthPolicy
  activeHealth : Option ActiveHealthPolicy
  passiveHealth : Option PassiveHealthPolicy
  active_conflict : activeHealth.isSome → health = none
  passive_requires : passiveHealth.isSome → activeHealth.isSome ∧ health = none

/-- The node starts, and starts again with each endpoint, in the checking state. -/
def BalanceConfig.checking (config : BalanceConfig) : Bool :=
  config.activeHealth.any fun policy => policy.initialState == .checking

/-! ## Health -/

/-- What the two clocks and the process clock of the balancer read. -/
structure Clock where
  /-- `now_ms()`. -/
  nowMs : UInt64
  unixMs : UInt64
  instant : Nat
  deriving DecidableEq, Repr

inductive Source where
  | passive
  | activeProbe
  deriving DecidableEq, Repr

inductive Kind where
  | httpResponse
  | transportFailure
  | timeout
  deriving DecidableEq, Repr

structure ObservationEvidence where
  source : Source
  kind : Kind
  status : Option UInt16
  observedAtUnixMs : UInt64
  observed : Nat
  deriving DecidableEq, Repr

/-- The health fields of `Node`. -/
structure Health where
  observation : Option ObservationEvidence
  failures : UInt64
  unavailableUntil : UInt64
  activeUnhealthy : Bool
  initialCheckPending : Bool
  activeProbeSeen : Bool
  passiveUnhealthy : Bool
  activeSuccesses : UInt64
  activeHttpFailures : UInt64
  activeTcpFailures : UInt64
  activeTimeouts : UInt64
  passiveHttpFailures : UInt64
  passiveTcpFailures : UInt64
  passiveTimeouts : UInt64
  deriving DecidableEq, Repr

/-- The health of a node that `Balancer::new` builds. -/
def Health.fresh (config : BalanceConfig) : Health where
  observation := none
  failures := 0
  unavailableUntil := 0
  activeUnhealthy := config.checking
  initialCheckPending := config.checking
  activeProbeSeen := false
  passiveUnhealthy := false
  activeSuccesses := 0
  activeHttpFailures := 0
  activeTcpFailures := 0
  activeTimeouts := 0
  passiveHttpFailures := 0
  passiveTcpFailures := 0
  passiveTimeouts := 0

/-! ## Atomic instructions -/

/-- The fields that count with `fetch_add`. -/
inductive Counter where
  | failures
  | activeSuccesses
  | activeHttpFailures
  | activeTcpFailures
  | activeTimeouts
  | passiveHttpFailures
  | passiveTcpFailures
  | passiveTimeouts
  deriving DecidableEq, Repr

/-- One store. The last two read a clock for the value they store. -/
inductive Store where
  | counter (c : Counter) (value : UInt64)
  | unavailableUntil (value : UInt64)
  | activeUnhealthy (value : Bool)
  | initialCheckPending (value : Bool)
  | activeProbeSeen (value : Bool)
  | passiveUnhealthy (value : Bool)
  | clearObservation
  | cooldown (ms : UInt64)
  | recordObservation (source : Source) (kind : Kind) (status : Option UInt16)
  deriving DecidableEq, Repr

/-- A store, or a `fetch_add` with the stores made when the count reaches the
    threshold. -/
inductive Instr where
  | store (s : Store)
  | count (c : Counter) (threshold : UInt32) (reached : List Store)
  deriving DecidableEq, Repr

def Health.get (h : Health) : Counter → UInt64
  | .failures => h.failures
  | .activeSuccesses => h.activeSuccesses
  | .activeHttpFailures => h.activeHttpFailures
  | .activeTcpFailures => h.activeTcpFailures
  | .activeTimeouts => h.activeTimeouts
  | .passiveHttpFailures => h.passiveHttpFailures
  | .passiveTcpFailures => h.passiveTcpFailures
  | .passiveTimeouts => h.passiveTimeouts

def Health.set (h : Health) (value : UInt64) : Counter → Health
  | .failures => { h with failures := value }
  | .activeSuccesses => { h with activeSuccesses := value }
  | .activeHttpFailures => { h with activeHttpFailures := value }
  | .activeTcpFailures => { h with activeTcpFailures := value }
  | .activeTimeouts => { h with activeTimeouts := value }
  | .passiveHttpFailures => { h with passiveHttpFailures := value }
  | .passiveTcpFailures => { h with passiveTcpFailures := value }
  | .passiveTimeouts => { h with passiveTimeouts := value }

def Health.store (clock : Clock) (h : Health) : Store → Health
  | .counter c value => h.set value c
  | .unavailableUntil value => { h with unavailableUntil := value }
  | .activeUnhealthy value => { h with activeUnhealthy := value }
  | .initialCheckPending value => { h with initialCheckPending := value }
  | .activeProbeSeen value => { h with activeProbeSeen := value }
  | .passiveUnhealthy value => { h with passiveUnhealthy := value }
  | .clearObservation => { h with observation := none }
  | .cooldown ms => { h with unavailableUntil := clock.nowMs + ms }
  | .recordObservation source kind status =>
    { h with observation := some ⟨source, kind, status, clock.unixMs, clock.instant⟩ }

/-- The count after a `fetch_add(1)` has reached the threshold. -/
def Health.reaches (h : Health) (c : Counter) (threshold : UInt32) : Bool :=
  threshold.toUInt64 ≤ h.get c + 1

/-- The instructions one after the other. -/
def Health.exec (clock : Clock) (h : Health) : List Instr → Health
  | [] => h
  | .store s :: rest => (h.store clock s).exec clock rest
  | .count c threshold reached :: rest =>
    let counted := h.set (h.get c + 1) c
    let next := if h.reaches c threshold then reached.foldl (Health.store clock) counted else counted
    next.exec clock rest

/-! ## The writers -/

/-- The stores of `ensure_epoch_locked`, before the store of the epoch itself. -/
def resetStores (config : BalanceConfig) : List Store :=
  [.counter .failures 0, .unavailableUntil 0, .activeUnhealthy config.checking,
    .initialCheckPending config.checking, .activeProbeSeen false, .clearObservation,
    .passiveUnhealthy false, .counter .activeSuccesses 0, .counter .activeHttpFailures 0,
    .counter .activeTcpFailures 0, .counter .activeTimeouts 0, .counter .passiveHttpFailures 0,
    .counter .passiveTcpFailures 0, .counter .passiveTimeouts 0]

/-- What an active probe reports. -/
inductive ActiveReport where
  | status (status : UInt16)
  | transportFailure
  | timeout
  deriving DecidableEq, Repr

/-- The bodies of `record_active_status_for`, `record_active_transport_failure_for`
    and `record_active_timeout_for`, after the epoch is ensured. -/
def activeBody (policy : ActiveHealthPolicy) : ActiveReport → List Instr
  | .status status =>
    [.store (.recordObservation .activeProbe .httpResponse (some status)),
      .store (.activeProbeSeen true)] ++
    if policy.healthyStatuses.contains status then
      [.store (.counter .activeHttpFailures 0), .store (.counter .activeTcpFailures 0),
        .store (.counter .activeTimeouts 0),
        .count .activeSuccesses policy.healthySuccesses
          [.activeUnhealthy false, .passiveUnhealthy false, .counter .passiveHttpFailures 0,
            .counter .passiveTcpFailures 0, .counter .passiveTimeouts 0,
            .initialCheckPending false]]
    else if policy.unhealthyStatuses.contains status then
      [.store (.counter .activeSuccesses 0),
        .count .activeHttpFailures policy.unhealthyHttpFailures [.activeUnhealthy true]]
    else if policy.initialState == .checking then [.store (.counter .activeSuccesses 0)]
    else []
  | .transportFailure =>
    [.store (.recordObservation .activeProbe .transportFailure none),
      .store (.activeProbeSeen true), .store (.counter .activeSuccesses 0),
      .count .activeTcpFailures policy.unhealthyTcpFailures [.activeUnhealthy true]]
  | .timeout =>
    [.store (.recordObservation .activeProbe .timeout none),
      .store (.activeProbeSeen true), .store (.counter .activeSuccesses 0),
      .count .activeTimeouts policy.unhealthyTimeouts [.activeUnhealthy true]]

/-- The feedback methods of `BackendLease`. -/
inductive LeaseReport where
  | record (success : Bool)
  | httpStatus (status : UInt16)
  | transportFailure
  | timeout
  deriving DecidableEq, Repr

/-- The update of `BackendLease::record`. -/
def recordBody (config : BalanceConfig) (success : Bool) : List Instr :=
  match config.health with
  | none => []
  | some health =>
    if success then [.store (.counter .failures 0), .store (.unavailableUntil 0)]
    else [.count .failures health.failureThreshold [.cooldown health.cooldownMs]]

/-- The updates of a feedback method, one for each time it asks for the current
    epoch: the observation, then the policy in effect. -/
def leaseBodies (config : BalanceConfig) : LeaseReport → List (List Instr)
  | .record success => [recordBody config success]
  | .httpStatus status =>
    [[.store (.recordObservation .passive .httpResponse (some status))],
      match config.passiveHealth with
      | some passive =>
        if passive.unhealthyStatuses.contains status then
          [.count .passiveHttpFailures passive.unhealthyHttpFailures [.passiveUnhealthy true]]
        else []
      | none => recordBody config (status < 500)]
  | .transportFailure =>
    [[.store (.recordObservation .passive .transportFailure none)],
      match config.passiveHealth with
      | some passive =>
        [.count .passiveTcpFailures passive.unhealthyTcpFailures [.passiveUnhealthy true]]
      | none => recordBody config false]
  | .timeout =>
    [[.store (.recordObservation .passive .timeout none)],
      match config.passiveHealth with
      | some passive =>
        [.count .passiveTimeouts passive.unhealthyTimeouts [.passiveUnhealthy true]]
      | none => recordBody config false]

/-! ## Availability -/

/-- The health part of `Balancer::available`. -/
def Health.available (config : BalanceConfig) (nowMs : UInt64) (h : Health) : Bool :=
  !h.initialCheckPending && !h.activeUnhealthy && !h.passiveUnhealthy &&
    (config.health.isNone || h.unavailableUntil ≤ nowMs)

/-- All the resets together give the health of a new node. -/
theorem foldl_resetStores (config : BalanceConfig) (clock : Clock) (h : Health) :
    (resetStores config).foldl (Health.store clock) h = Health.fresh config := rfl

end Balance
