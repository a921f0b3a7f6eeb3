import Hangang.Framework.Framing
import Hangang.Framework.IpAddr
import Hangang.Framework.Table
import Hangang.Framework.Threads
import Hangang.Guard.Lifetime

/-! # The Guard Client

    `GuardClient` in query mode: admission with its cache of decisions, fresh
    authorization evidence, and the evidence that requests keep. A call takes one
    step for each critical section of the cache lock and for each read of the
    cancellation token outside of it. What the guard service answers, what the
    clock says and what a snapshot policy decides are choices. -/

open Bytes

namespace Guard

/-! ## Configuration and decisions -/

inductive Mode where
  | observe
  | enforce
  deriving DecidableEq, Repr

inductive Kind where
  | honeypot
  | scanner
  | authFailure
  | invalidRequest
  deriving DecidableEq, Repr

inductive TransportMode where
  | query
  | snapshot
  deriving DecidableEq, Repr

inductive FailureMode where
  | allow
  | deny
  deriving DecidableEq, Repr

inductive Action where
  | allow
  | deny
  deriving DecidableEq, Repr

structure Config where
  /-- Whether there is a `decision_tcp` endpoint. -/
  decisionTcp : Bool
  decisionGrpc : Bool
  transportMode : TransportMode
  failureMode : FailureMode
  cacheMs : Nat
  honeypotPaths : List Bytes
  scannerPaths : List Bytes
  deriving DecidableEq, Repr

structure Decision where
  version : Nat
  revision : Nat
  action : Action
  mode : Mode
  reason : Option Bytes
  ttlMs : Nat
  deriving DecidableEq, Repr

/-- The status of an unavailable decision. -/
def Config.failure (config : Config) : Option Nat :=
  if config.failureMode = .deny then some 503 else none

def Config.pathKind (config : Config) (path : Bytes) : Option Kind :=
  if path ∈ config.honeypotPaths then some .honeypot
  else if path ∈ config.scannerPaths then some .scanner
  else none

/-! ## Replies -/

/-- The message of the gRPC service. -/
structure NetworkReply where
  requestId : Nat
  revision : Nat
  verdict : Int
  mode : Int
  ttlMs : Nat
  deriving DecidableEq, Repr

/-- What comes back from the service. -/
inductive Reply where
  /-- A body that is a decision. -/
  | http (decision : Decision)
  | frame (correlation : Nat) (bytes : Bytes)
  /-- With the id of the request and the revision the client had seen. -/
  | grpc (reply : NetworkReply) (requestId floor : Nat)
  /-- An error of the transport, a timeout, or a body that is no decision. -/
  | failed
  deriving DecidableEq, Repr

/-- The checks of `TcpPool::query` on a decision frame. -/
def readFrame (correlation : Nat) (frame : Bytes) : Option Decision :=
  let action := frame.getD 1 0
  let mode := frame.getD 2 0
  let ttlMs := ofBeBytes ((frame.drop 16).take 4)
  if frame.length = 24 ∧ frame.getD 0 0 = 1 ∧ action ≤ 1 ∧ mode ≤ 1 ∧ frame.getD 3 0 = 0 ∧
      frame.drop 20 = [0, 0, 0, 0] ∧ (frame.drop 4).take 4 = beBytes 4 correlation ∧
      ttlMs ≤ 5000 ∧ ¬ (action = 1 ∧ mode = 0) then
    some ⟨1, ofBeBytes ((frame.drop 8).take 8), if action = 0 then .allow else .deny,
      if mode = 0 then .observe else .enforce, none, ttlMs⟩
  else none

/-- `grpc::decode`. -/
def decode (reply : NetworkReply) (requestId floor : Nat) : Option Decision :=
  if reply.requestId = requestId ∧ floor ≤ reply.revision ∧ reply.ttlMs ≤ 5000 then do
    let action ← match reply.verdict with
      | 1 => some Action.allow
      | 2 => some Action.deny
      | _ => none
    let mode ← match reply.mode with
      | 1 => some Mode.observe
      | 2 => some Mode.enforce
      | _ => none
    if mode = .observe ∧ action = .deny then none
    else some ⟨1, reply.revision, action, mode, none, reply.ttlMs⟩
  else none

/-- The checks of `admission` on a decision that came over HTTP. -/
def checkAdmission (decision : Decision) : Option Decision :=
  if decision.version = 1 ∧ decision.reason.all (fun reason => reason.length ≤ 128) ∧
      decision.ttlMs ≤ 5000 ∧ ¬ (decision.mode = .observe ∧ decision.action = .deny) then
    some decision
  else none

/-- The checks of `authorization_capture`. -/
def checkAuthorization (decision : Decision) : Option Decision :=
  if decision.version = 1 ∧ decision.ttlMs ≤ 5000 then some decision else none

/-- The decision that a reply is accepted as. Signals always go over HTTP. -/
def Config.accept (config : Config) (kind : Option Kind)
    (check : Decision → Option Decision) (reply : Reply) : Option Decision :=
  if kind.isNone && config.decisionGrpc then
    match reply with
    | .grpc reply requestId floor => decode reply requestId floor
    | _ => none
  else if kind.isNone && config.decisionTcp then
    match reply with
    | .frame correlation bytes => readFrame correlation bytes
    | _ => none
  else
    match reply with
    | .http decision => check decision
    | _ => none

/-! ## State -/

/-- `pumgye_core::GuardEvidence`. -/
inductive GuardEvidence where
  | enforcedAllow
  | deny
  | observe
  | unavailable
  deriving DecidableEq, Repr

/-- The lifetime is that of a query, by its number. -/
structure RequestEvidence where
  ip : IpAddr
  revision : Nat
  lifetime : Nat
  ttlMs : Nat
  value : GuardEvidence
  deriving DecidableEq, Repr

structure Cached where
  denied : Bool
  proof : RequestEvidence
  ttlMs : Nat
  deriving DecidableEq, Repr

structure Cache where
  revision : Option Nat
  entries : Table IpAddr Cached

/-- A query that was started. -/
structure Query where
  lifetime : Lifetime
  /-- Ghost: the thread that started it. -/
  owner : Nat
  /-- Ghost: whom it was about. -/
  ip : IpAddr
  /-- Ghost: the decision that was accepted. -/
  reply : Option Decision
  deriving DecidableEq, Repr

structure Shared where
  cache : Cache
  queries : List Query
  cancelled : Bool
  queryFailures : Nat

def initial : Shared := ⟨⟨none, ∅⟩, [], false, 0⟩

/-! ## Calls -/

inductive Call where
  | admission (ip : IpAddr) (path : Bytes)
  | authorizationCapture (ip : IpAddr)
  /-- `RequestEvidence::remaining`, by whoever holds a capture. -/
  | remaining (proof : RequestEvidence) (ip : IpAddr)

inductive Thread where
  | arrived (ip : IpAddr) (path : Bytes)
  | looking (ip : IpAddr)
  | starting (ip : IpAddr) (kind : Option Kind)
  | querying (ip : IpAddr) (kind : Option Kind) (query : Nat)
  /-- The result of `admission`. -/
  | answered (rejection : Option Nat) (proof : Option RequestEvidence)
  | authorizing (ip : IpAddr)
  | authorizingStart (ip : IpAddr)
  | authorizingQuery (ip : IpAddr) (query : Nat)
  | assessing (ip : IpAddr) (query : Nat) (decision : Decision)
  | evidence (value : GuardEvidence) (proof : Option RequestEvidence)
  | binding (proof : RequestEvidence) (ip : IpAddr)
  | measuring (proof : RequestEvidence)
  | measured (left : Option Nat)
  deriving DecidableEq, Repr

inductive Choice where
  | go
  /-- What the snapshot policy says. -/
  | policy (denied : Bool)
  /-- Whether the clock can be read for `start_query`. -/
  | start (available : Bool)
  /-- What the clock says about each query. -/
  | clock (reading : Nat → Option Nat)
  | reply (reply : Reply) (reading : Nat → Option Nat)

section steps

variable (config : Config) (tid : Nat) (s : Shared)

/-- `Lifetime::remaining` of a query. -/
def readLifetime (query ttlMs : Nat) (reading : Option Nat) : Option Nat × Shared :=
  match s.queries[query]? with
  | none => (none, s)
  | some q =>
    let (left, lifetime) := q.lifetime.remaining reading ttlMs
    (left, { s with queries := s.queries.set query { q with lifetime := lifetime } })

/-- The check of a decision's age; one without a budget has none. -/
def readBudget (query ttlMs : Nat) (reading : Option Nat) : Option Nat × Shared :=
  if 0 < ttlMs then readLifetime s query ttlMs reading else (some 0, s)

/-- `start_query`. -/
def startQuery (ip : IpAddr) : Nat × Shared :=
  (s.queries.length, { s with queries := s.queries ++ [⟨.start, tid, ip, none⟩] })

/-- The first critical section of `admission`. -/
def lookup (ip : IpAddr) (reading : Nat → Option Nat) : Shared × Thread :=
  match s.cache.entries.lookup ip with
  | none => (s, .starting ip none)
  | some entry =>
    let (left, s) := readLifetime s entry.proof.lifetime entry.ttlMs (reading entry.proof.lifetime)
    if left.isSome then
      (s, .answered (if entry.denied then some 403 else none)
        (if entry.denied then none else some { entry.proof with ttlMs := entry.ttlMs }))
    else (s, .starting ip none)

/-- Ghost: the decision is accepted as the reply to the query. -/
def accepted (query : Nat) (decision : Decision) : Shared :=
  { s with queries := s.queries.modify query fun q => { q with reply := some decision } }

/-- The decision is not older than the newest observed one. -/
def notOlder (decision : Decision) : Bool :=
  s.cache.revision.all fun revision => revision ≤ decision.revision

/-- A newly observed revision clears the cache. -/
def observe (decision : Decision) : Shared :=
  if s.cache.revision = some decision.revision then s
  else { s with cache := ⟨some decision.revision, ∅⟩ }

/-- The lifetimes of all cached decisions are read, and those that are over leave. -/
def retainLive (reading : Nat → Option Nat) : Shared :=
  let held := s.cache.entries.entries.map fun e => e.2.proof.lifetime
  { s with
    cache := { s.cache with
      entries := s.cache.entries.retain fun _ entry =>
        (readLifetime s entry.proof.lifetime entry.ttlMs
          (reading entry.proof.lifetime)).1.isSome }
    queries := s.queries.mapIdx fun i q =>
      if i ∈ held then { q with lifetime := (q.lifetime.remaining (reading i) 0).2 } else q }

/-- The part of `admission` that stores a decision. -/
def store (kind : Option Kind) (ttl : Nat) (ip : IpAddr) (entry : Cached)
    (reading : Nat → Option Nat) : Shared :=
  if kind.isNone ∧ 0 < ttl then
    let s := if 10000 ≤ s.cache.entries.size then retainLive s reading else s
    if s.cache.entries.size < 10000 then
      { s with cache := { s.cache with entries := s.cache.entries.insert ip entry } }
    else s
  else s

/-- The second critical section of `admission`. -/
def complete (ip : IpAddr) (kind : Option Kind) (query : Nat) (decision : Decision)
    (reading : Nat → Option Nat) : Shared × Thread :=
  let s := accepted s query decision
  let denied := decision.action = .deny
  if !notOlder s decision then (s, .answered config.failure none)
  else
    let s := observe s decision
    if s.cancelled then (s, .answered config.failure none)
    else
      let (left, s) := readBudget s query decision.ttlMs (reading query)
      if left.isNone then (s, .answered config.failure none)
      else
        let value := if decision.mode = .enforce then .enforcedAllow else .observe
        let capture : RequestEvidence := ⟨ip, decision.revision, query, decision.ttlMs, value⟩
        let ttl := min config.cacheMs decision.ttlMs
        (store s kind ttl ip ⟨denied, capture, ttl⟩ reading,
          .answered (if denied then some 403 else none)
            (if ¬ denied ∧ 0 < decision.ttlMs then some capture else none))

/-- What `authorization_capture` makes of a decision, after the lock. -/
def assess (ip : IpAddr) (query : Nat) (decision : Decision) (reading : Nat → Option Nat) :
    Shared × Thread :=
  match decision.mode, decision.action with
  | .observe, .deny => (s, .evidence .unavailable none)
  | mode, action =>
    let value := match mode, action with
      | .enforce, .allow => GuardEvidence.enforcedAllow
      | .enforce, .deny => .deny
      | .observe, _ => .observe
    let ttlMs := min decision.ttlMs 1000
    if s.cancelled then (s, .evidence .unavailable none)
    else
      let (left, s) := readBudget s query ttlMs (reading query)
      if left.isNone then (s, .evidence .unavailable none)
      else (s, .evidence value
        (if 0 < ttlMs then some ⟨ip, decision.revision, query, ttlMs, value⟩ else none))

/-- One step of a thread. -/
def advance : Thread → Choice → Option (Shared × Thread)
  | .arrived ip path, choice =>
    let ip := ip.toCanonical
    match config.transportMode, choice with
    | .snapshot, .policy denied => some (s, .answered (if denied then some 403 else none) none)
    | .query, .go =>
      if s.cancelled then some (s, .answered config.failure none)
      else
        let kind := config.pathKind path
        some (s, if kind.isNone ∧ 0 < config.cacheMs then .looking ip else .starting ip kind)
    | _, _ => none
  | .looking ip, .clock reading => some (lookup s ip reading)
  | .starting ip kind, .start available =>
    if available then
      let (query, s) := startQuery tid s ip
      some (s, .querying ip kind query)
    else some (s, .answered config.failure none)
  | .querying ip kind query, .reply reply reading =>
    match config.accept kind checkAdmission reply with
    | none => some ({ s with queryFailures := s.queryFailures + 1 }, .answered config.failure none)
    | some decision => some (complete config s ip kind query decision reading)
  | .authorizing ip, .go =>
    some (s, if config.transportMode = .snapshot ∨ s.cancelled then .evidence .unavailable none
      else .authorizingStart ip.toCanonical)
  | .authorizingStart ip, .start available =>
    if available then
      let (query, s) := startQuery tid s ip
      some (s, .authorizingQuery ip query)
    else some (s, .evidence .unavailable none)
  | .authorizingQuery ip query, .reply reply _ =>
    match config.accept none checkAuthorization reply with
    | none => some (s, .evidence .unavailable none)
    | some decision =>
      let s := accepted s query decision
      if notOlder s decision then some (observe s decision, .assessing ip query decision)
      else some (s, .evidence .unavailable none)
  | .assessing ip query decision, .clock reading => some (assess s ip query decision reading)
  | .binding proof ip, .go =>
    some (s, if ¬ s.cancelled ∧ proof.ip = ip.toCanonical ∧
        s.cache.revision = some proof.revision then .measuring proof
      else .measured none)
  | .measuring proof, .clock reading =>
    let (left, s) := readLifetime s proof.lifetime (min proof.ttlMs 1000) (reading proof.lifetime)
    some (s, .measured left)
  | _, _ => none

end steps

def start : Call → Option Thread
  | .admission ip path => some (.arrived ip path)
  | .authorizationCapture ip => some (.authorizing ip)
  | .remaining proof ip => some (.binding proof ip)

/-- The cancellation of the guard's owner. -/
def cancel (s : Shared) (_ : Unit) : Option Shared := some { s with cancelled := true }

def program (config : Config) : Program Shared Thread Call Choice Unit where
  start := start
  advance := advance config
  tick := cancel

end Guard
