import Hangang.HostMatch.CaseFold
import Hangang.ResourceGuard.PathScope

/-! # The Scope of a Route

    The listeners, hosts and paths that a route selects: `listener_matches` and
    `host_matches` of `resource_guard`, next to `path_matches`. A host regex is
    compiled by the `regex` crate; whether the expression with some source matches
    a host is a parameter. -/

open Bytes HostMatch

namespace ResourceGuard

/-- `resource_policy::ResourcePolicy`, as far as scopes and their guards read it.
    The two gates are read only for their presence. -/
structure ResourcePolicy where
  resourceId : Bytes
  enforce : Bool
  pumgye : Bool
  pumgyeResource : Bool
  deriving DecidableEq, Repr

def ResourcePolicy.hasPumgye (policy : ResourcePolicy) : Bool :=
  policy.pumgye || policy.pumgyeResource

/-- The fields of `config::HttpRoute` that decide its scope, and those that the
    guards read. -/
structure Route extends HttpRoute where
  id : Bytes
  enabled : Bool
  listenerIds : List Bytes
  host : Option Bytes
  hosts : List Bytes
  hostRegex : Option Bytes
  workloadAuth : Bool
  responseTransform : Bool
  resourcePolicy : Option ResourcePolicy
  deriving DecidableEq, Repr

/-- A request as the listener that accepted it passes it on. -/
structure Arrived extends Request where
  /-- The dedicated workload listener leaves its evidence. -/
  workload : Bool
  /-- The id that a named public listener leaves. -/
  listenerId : Option Bytes
  deriving DecidableEq, Repr

/-- The id of the listener of the command line. -/
def defaultListener : Bytes := ascii "default"

/-- `resource_guard::listener_matches`. -/
def listenerMatches (route : Route) (request : Arrived) : Bool :=
  if request.workload then route.listenerIds.isEmpty
  else
    let id := request.listenerId.getD defaultListener
    if route.listenerIds.isEmpty then id == defaultListener
    else route.listenerIds.any (· == id)

section hosts

variable (isMatch : Bytes → Bytes → Bool)

/-- `resource_guard::host_matches`. -/
def hostMatches (route : Route) (actual : Option Bytes) : Bool :=
  if route.host.any fun pattern => !actual.any (patternMatches pattern) then false
  else if !route.hosts.isEmpty &&
      !actual.any fun host => route.hosts.any fun pattern => patternMatches pattern host then false
  else
    !route.hostRegex.any fun source =>
      !actual.any fun host => host.length ≤ maxHostBytes && isAscii host && isMatch source host

/-- `resource_guard::scope_host`: a spelling with root dots counts, too. -/
def scopeHost (route : Route) (host : Option Bytes) : Bool :=
  hostMatches isMatch route host ||
    host.any fun host => hostMatches isMatch route (some (trimEndMatches 46 host))

variable {isMatch} {route : Route}

/-- Two early returns of `false`. -/
theorem guarded_eq_true {a b c : Bool} :
    (if a then false else if b then false else c) = true ↔ a = false ∧ b = false ∧ c = true := by
  cases a <;> cases b <;> simp

/-- A host is accepted when each condition of the route accepts it. -/
theorem hostMatches_some {host : Bytes} :
    hostMatches isMatch route (some host) = true ↔
      (∀ pattern, route.host = some pattern → patternMatches pattern host = true) ∧
      (route.hosts ≠ [] → ∃ pattern ∈ route.hosts, patternMatches pattern host = true) ∧
      (∀ source, route.hostRegex = some source →
        host.length ≤ maxHostBytes ∧ isAscii host = true ∧ isMatch source host = true) := by
  have hhost : (route.host.any fun pattern => !(some host).any (patternMatches pattern)) = false ↔
      ∀ pattern, route.host = some pattern → patternMatches pattern host = true := by
    cases route.host <;> simp
  have hhosts : (!route.hosts.isEmpty && !(some host).any fun host =>
        route.hosts.any fun pattern => patternMatches pattern host) = false ↔
      (route.hosts ≠ [] → ∃ pattern ∈ route.hosts, patternMatches pattern host = true) := by
    cases hnil : route.hosts with
    | nil => simp
    | cons first rest => cases hfirst : patternMatches first host <;> simp [hfirst]
  have hregex : (!route.hostRegex.any fun source => !(some host).any fun host =>
        host.length ≤ maxHostBytes && isAscii host && isMatch source host) = true ↔
      ∀ source, route.hostRegex = some source →
        host.length ≤ maxHostBytes ∧ isAscii host = true ∧ isMatch source host = true := by
    cases route.hostRegex <;> simp [and_assoc]
  rw [← hhost, ← hhosts, ← hregex]
  exact guarded_eq_true

/-- A route that accepts a request without a host has no condition on hosts. -/
theorem hostMatches_none (h : hostMatches isMatch route none = true) :
    route.host = none ∧ route.hosts = [] ∧ route.hostRegex = none := by
  obtain ⟨hhost, hhosts, hregex⟩ := guarded_eq_true.mp h
  refine ⟨?_, ?_, ?_⟩
  · cases hr : route.host with
    | none => rfl
    | some pattern => simp [hr] at hhost
  · cases hr : route.hosts with
    | nil => rfl
    | cons first rest => simp [hr] at hhosts
  · cases hr : route.hostRegex with
    | none => rfl
    | some source => simp [hr] at hregex

theorem hostMatches_of_unrestricted (hhost : route.host = none) (hhosts : route.hosts = [])
    (hregex : route.hostRegex = none) (actual : Option Bytes) :
    hostMatches isMatch route actual = true := by
  simp [hostMatches, hhost, hhosts, hregex]

/-- The expression of the route is compiled to ignore case. -/
def CaseInsensitive (isMatch : Bytes → Bytes → Bool) (route : Route) : Prop :=
  ∀ source, route.hostRegex = some source → ∀ host host', lower host = lower host' →
    isMatch source host = isMatch source host'

theorem isAscii_congr {x y : Bytes} (h : lower x = lower y) : isAscii x = isAscii y := by
  rw [← isAscii_lower x, h, isAscii_lower y]

theorem hostMatches_congr (hcase : CaseInsensitive isMatch route) {host host' : Bytes}
    (h : lower host = lower host') :
    hostMatches isMatch route (some host) = hostMatches isMatch route (some host') := by
  have hlength : host.length = host'.length := by
    rw [← length_lower host, h, length_lower host']
  have hpattern : ∀ pattern, patternMatches pattern host = patternMatches pattern host' :=
    fun pattern => patternMatches_congr rfl h
  rw [Bool.eq_iff_iff, hostMatches_some, hostMatches_some]
  simp only [hpattern, hlength, isAscii_congr h]
  refine and_congr_right' (and_congr_right' (forall₂_congr fun source hsource => ?_))
  rw [hcase source hsource host host' h]

end hosts

end ResourceGuard
