import Hangang.Balance.Config
import Hangang.Balance.EpochFence
import Hangang.Framework.Scan

/-! # Balancers and Their Nodes

    A balancer holds its nodes by `Arc`, and two balancers share a node by holding
    the same pointer. Nodes live in a heap here, a pointer is a position in it, and
    allocation appends, so what a construction does to the nodes of published
    balancers is what it does to the old part of the heap.

    Selection reads the nodes and moves the cursor. -/

namespace Balance

inductive DesiredState where
  | serving
  | draining
  | maintenance
  deriving DecidableEq, Repr

/-- `nodes` are pointers. There are at most 128 weights of at most 1000 each, so the
    total does not wrap and is a number. -/
structure Balancer where
  config : RouteBalance
  nodes : List Nat
  cursor : UInt64
  totalWeight : Nat
  deriving DecidableEq, Repr

/-! ## Construction -/

def RouteBalance.checking (config : RouteBalance) : Bool :=
  config.activeHealth.any fun policy => policy.initialState == .checking

/-- The node of `Balancer::new`: `Node::default` but for two flags. -/
def RouteBalance.freshNode (config : RouteBalance) : Node where
  endpointEpoch := 0
  health :=
    { observation := none
      failures := 0
      unavailableUntil := 0
      activeUnhealthy := config.checking
      initialCheckPending := config.checking
      activeProbeSeen := false
      passiveUnhealthy := false
      activeSuccesses := 0
      activeHttpFailures := 0
      activeTcpFailures := 0
      activeTimeouts := 0
      passiveHttpFailures := 0
      passiveTcpFailures := 0
      passiveTimeouts := 0 }
  admission := MemberAdmission.serving

namespace Balancer

/-- `Balancer::new`: the heap with the new nodes, and the balancer that holds them. -/
def new (heap : List Node) (config : RouteBalance) (count : Nat) : List Node × Balancer :=
  (heap ++ List.replicate count config.freshNode,
    { config := config
      nodes := List.range' heap.length count
      cursor := 0
      totalWeight :=
        if config.weights = [] then count else (config.weights.map UInt16.toNat).sum })

/-- The policies of two generations agree, so that health may be carried over. -/
def compatible (config : RouteBalance) (old : Balancer) : Bool :=
  config.health == old.config.health && config.activeHealth == old.config.activeHealth &&
    config.passiveHealth == old.config.passiveHealth

/-- `node.active.is_open()`. -/
def isOpen (heap : List Node) (pointer : Nat) : Bool :=
  heap[pointer]?.any fun node => MemberAdmission.isOpen node.admission

/-- `node.active.retire()`. -/
def retireNode (heap : List Node) (pointer : Nat) : List Node :=
  heap.modify pointer fun node =>
    { node with admission := MemberAdmission.retire node.admission }

/-- The old node that a member may keep. -/
def reusable (heap : List Node) (config : RouteBalance) (previous : Option Balancer)
    (mapping : List (Option Nat)) (index : Nat) (wantedOpen : Bool) : Option Nat :=
  (previous.filter (compatible config)).bind fun old =>
    ((mapping[index]?.join).bind fun i => old.nodes[i]?).filter fun pointer =>
      isOpen heap pointer == wantedOpen

/-- One turn of the loop of `with_member_states`. -/
def placeMember (previous : Option Balancer) (mapping : List (Option Nat))
    (built : List Node × Balancer) (member : DesiredState × Nat) : List Node × Balancer :=
  let wantedOpen := member.1 == .serving
  match reusable built.1 built.2.config previous mapping member.2 wantedOpen with
  | some pointer =>
    (built.1, { built.2 with nodes := built.2.nodes.set member.2 pointer })
  | none =>
    if wantedOpen then built
    else (built.2.nodes[member.2]?.elim built.1 (retireNode built.1), built.2)

/-- `with_member_states`; `none` is the failed assertion. -/
def withMemberStates (heap : List Node) (config : RouteBalance) (previous : Option Balancer)
    (mapping : List (Option Nat)) (states : List DesiredState) : Option (List Node × Balancer) :=
  if previous.isSome ∧ mapping.length ≠ states.length then none
  else some (states.zipIdx.foldl (placeMember previous mapping) (new heap config states.length))

/-! ## Retirement -/

/-- `retirements`: the nodes that the successor does not hold, with their indices. -/
def retirements (old : Balancer) (successor : Option Balancer) : List (Nat × Nat) :=
  old.nodes.zipIdx.filter fun handle =>
    successor.all fun next => !next.nodes.contains handle.1

/-- `BackendRetirement::retire` for each handle, when the generation is published. -/
def retireAll (heap : List Node) (handles : List (Nat × Nat)) : List Node :=
  handles.foldl (fun heap handle => retireNode heap handle.1) heap

/-! ## Selection -/

def weight (b : Balancer) (index : Nat) : UInt64 :=
  (b.config.weights[index]?.getD 1).toUInt64

def node? (heap : List Node) (b : Balancer) (index : Nat) : Option Node :=
  b.nodes[index]?.bind fun pointer => heap[pointer]?

def active (heap : List Node) (b : Balancer) (index : Nat) : UInt64 :=
  (b.node? heap index).elim 0 fun node => MemberAdmission.active node.admission

/-- `available`. -/
def available (heap : List Node) (nowMs : UInt64) (b : Balancer) (index : Nat) : Bool :=
  (b.node? heap index).any fun node =>
    MemberAdmission.isOpen node.admission && !node.health.initialCheckPending &&
      !node.health.activeUnhealthy && !node.health.passiveUnhealthy &&
      (b.config.health.isNone || node.health.unavailableUntil ≤ nowMs)

/-- The walk over the weights: the node whose share holds the slot. -/
def walk : List UInt16 → Nat → Nat → Nat
  | [], _, _ => 0
  | w :: weights, index, slot =>
    if slot < w.toNat then index else walk weights (index + 1) (slot - w.toNat)

/-- One turn of the scan for the least loaded node. -/
def better (heap : List Node) (b : Balancer) (best : Option Nat) (index : Nat) : Option Nat :=
  match best with
  | none => some index
  | some previous =>
    if b.active heap index * b.weight previous < b.active heap previous * b.weight index then
      some index
    else some previous

/-- The choice of `select_where` for a value of the cursor. -/
def choose (heap : List Node) (nowMs : UInt64) (b : Balancer) (cursor : UInt64)
    (predicate : Nat → Bool) : Option Nat :=
  let eligible := fun index => predicate index && b.available heap nowMs index
  match b.config.mode with
  | .leastConnections =>
    ((Scan.rotation (cursor.toNat % b.nodes.length) b.nodes.length).filter eligible).foldl
      (b.better heap) none
  | .roundRobin =>
    let slot := cursor.toNat % b.totalWeight
    let selected := if b.config.weights = [] then slot else walk b.config.weights 0 slot
    (Scan.rotation selected b.nodes.length).find? eligible

/-- `select_where`: the choice, and the balancer with its cursor moved. -/
def selectWhere (heap : List Node) (nowMs : UInt64) (b : Balancer) (predicate : Nat → Bool) :
    Option Nat × Balancer :=
  if b.nodes = [] then (none, b)
  else (b.choose heap nowMs b.cursor predicate, { b with cursor := b.cursor + 1 })

/-- A balancer with valid weights, as it is built. -/
structure Formed (b : Balancer) : Prop where
  weights : ValidWeights b.config.weights b.nodes.length
  total : b.totalWeight =
    if b.config.weights = [] then b.nodes.length else (b.config.weights.map UInt16.toNat).sum

/-- The pointers of a balancer are those of nodes that exist. -/
def Live (heap : List Node) (b : Balancer) : Prop := ∀ pointer ∈ b.nodes, pointer < heap.length

end Balancer

end Balance
