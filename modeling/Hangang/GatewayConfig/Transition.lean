import Hangang.ResourceGuard.Check
import Mathlib.Data.Finset.Basic
import Mathlib.Data.Finset.Dedup
import Mathlib.Data.FinEnum

/-! # Configuration Transitions

    `Config::validate_transition_from` compares a new configuration with the active
    one: an enforced resource namespace stays where it is until a revision has
    released it. The comparison is structural (listener sets, host patterns, path
    operands), what the guards do is about requests; `namespace_preserved` relates
    the two. -/

open Bytes HostMatch ResourceGuard

namespace GatewayConfig

structure SocketAddr where
  ip : IpAddr
  port : UInt16
  deriving DecidableEq, Repr

structure TcpRoute where
  enabled : Bool
  listen : SocketAddr
  inboundTls : Bool
  deriving DecidableEq, Repr

structure WorkloadListener where
  enabled : Bool
  listen : SocketAddr
  deriving DecidableEq, Repr

/-- The parts of `config::Config` that a transition compares. -/
structure Config where
  http : List Route
  tcp : List TcpRoute
  workloadHttp : List WorkloadListener
  /-- The ids of `public_http`. -/
  publicIds : List Bytes
  deriving DecidableEq, Repr

/-! ## Validation of a route's scope -/

/-- One constructor for each message. -/
inductive ScopeError where
  /-- "route {} has too many listener IDs" -/
  | tooManyListeners (route : Bytes)
  /-- "route {} has duplicate listener ID" -/
  | duplicateListener (route : Bytes)
  /-- "route {} references unknown public HTTP listener {id}" -/
  | unknownListener (route id : Bytes)
  /-- "workload_auth route cannot select public HTTP listeners" -/
  | workloadListeners
  /-- "workload_auth requires protected access and resource_policy" -/
  | workloadAccess
  | path (error : ResourcePolicy.PathError)
  /-- "security-sensitive route path_prefix must be canonical" -/
  | sensitivePath
  /-- "resource policy requires access_mode protected" -/
  | resourceAccess
  /-- "resource path_prefix must be canonical" -/
  | resourcePath
  /-- "route {} access_mode protected requires basic_auth or auth or jwt_auth" -/
  | protectedWithout (route : Bytes)
  /-- "route {} access_mode public/application conflicts with basic_auth or auth or jwt_auth" -/
  | openWith (route : Bytes)
  /-- "host, hosts and host_regex are mutually exclusive" -/
  | hostsExclusive
  /-- "hosts may contain at most 32 patterns" -/
  | tooManyHosts
  /-- "duplicate hosts pattern" -/
  | duplicateHost
  /-- The messages of `host_match::validate_pattern`. -/
  | pattern (message : String)
  /-- "invalid match host" -/
  | matchHost
  /-- "host_regex must contain 1..1024 bytes" -/
  | regexLength
  deriving DecidableEq, Repr

open Except

/-- `validate_http_match_host`. -/
def validateHttpMatchHost (host : Bytes) : Except ScopeError Unit := do
  if isGlob host then (validatePattern host).mapError .pattern
  ensure (host ≠ [] ∧ host.length ≤ 255 ∧
    ∀ b ∈ host, ¬ (b ∈ [32, 9, 10, 12, 13] ∨ b = 47)) .matchHost

/-- The listener ids of a route, given those already seen. -/
def validateListenerIds (route : Bytes) (publicIds : List Bytes) :
    List Bytes → List Bytes → Except ScopeError Unit
  | _, [] => .ok ()
  | seen, id :: rest => do
    ensure (id ∉ seen) (.duplicateListener route)
    ensure (id = defaultListener ∨ id ∈ publicIds) (.unknownListener route id)
    validateListenerIds route publicIds (id :: seen) rest

/-- The patterns of `hosts`, given those already seen. -/
def validateHosts : List Bytes → List Bytes → Except ScopeError Unit
  | _, [] => .ok ()
  | seen, host :: rest => do
    validateHttpMatchHost host
    ensure (lower host ∉ seen) .duplicateHost
    validateHosts (lower host :: seen) rest

/-- The path of a route that must be spelled canonically. -/
def validateCanonical (path : Bytes) (error : ScopeError) : Except ScopeError Unit := do
  let canonical ← (ResourcePolicy.canonicalPath path).mapError .path
  ensure (canonical = path) error

/-- `access_mode` against the authenticators. -/
def validateAccess (r : Route) : Except ScopeError Unit :=
  match r.accessMode with
  | .legacy => .ok ()
  | .Protected =>
    ensure (r.basicAuth || r.auth || r.jwtAuth || r.workloadAuth) (.protectedWithout r.id)
  | .Public | .application =>
    ensure (!r.basicAuth && !r.auth && !r.jwtAuth && !r.workloadAuth) (.openWith r.id)

def validateSensitivePath (r : Route) : Except ScopeError Unit :=
  if r.basicAuth || r.auth || r.jwtAuth || r.workloadAuth || r.responseTransform then
    r.pathPrefix.toList.forM (validateCanonical · .sensitivePath)
  else .ok ()

def validateResourcePolicy (r : Route) : Except ScopeError Unit :=
  if r.resourcePolicy.isSome then do
    ensure (r.accessMode = .Protected) .resourceAccess
    r.pathPrefix.toList.forM (validateCanonical · .resourcePath)
  else .ok ()

/-- The checks of `Config::validate` on the scope of one route. -/
def validateRoute (publicIds : List Bytes) (r : Route) : Except ScopeError Unit := do
  ensure (r.listenerIds.length ≤ 64) (.tooManyListeners r.id)
  validateListenerIds r.id publicIds [] r.listenerIds
  ensure (r.workloadAuth = false ∨ r.listenerIds = []) .workloadListeners
  ensure (r.workloadAuth = false ∨ r.accessMode = .Protected ∧ r.resourcePolicy.isSome)
    .workloadAccess
  validateSensitivePath r
  validateResourcePolicy r
  validateAccess r
  ensure (r.host.isSome.toNat + r.hostRegex.isSome.toNat + (!r.hosts.isEmpty).toNat ≤ 1)
    .hostsExclusive
  ensure (r.hosts.length ≤ 32) .tooManyHosts
  validateHosts [] r.hosts
  r.hostRegex.toList.forM fun source => ensure (source ≠ [] ∧ source.length ≤ 1024) .regexLength
  r.host.toList.forM validateHttpMatchHost

/-- `Config::validate`, the scopes of its routes. -/
def Config.validate (config : Config) : Except ScopeError Unit :=
  config.http.forM (validateRoute config.publicIds)

/-! ## The comparison -/

/-- `effective_public_listeners`. -/
def effectivePublicListeners (route : Route) : Finset Bytes :=
  if route.listenerIds.isEmpty then {defaultListener} else route.listenerIds.toFinset

def unrestricted (route : Route) : Bool :=
  route.host.isNone && route.hosts.isEmpty && route.hostRegex.isNone

/-- `resource_hosts_preserved`. -/
def resourceHostsPreserved (old new : Route) : Bool :=
  if unrestricted new then true
  else if unrestricted old then false
  else if old.hostRegex.isSome || new.hostRegex.isSome then old.hostRegex == new.hostRegex
  else
    (old.host.toList ++ old.hosts).all fun pattern =>
      (new.host.toList ++ new.hosts).any fun next => eqIgnoreAsciiCase pattern next

/-- The new route keeps the namespace of the old one. -/
def keepsScope (old : Route) (policy : ResourcePolicy) (new : Route) : Bool :=
  (new.resourcePolicy.any fun next =>
    next.resourceId == policy.resourceId && (!policy.hasPumgye || next.hasPumgye)) &&
  resourceHostsPreserved old new && new.pathPrefix == old.pathPrefix &&
  new.pathMatch == old.pathMatch && new.pathCaseInsensitive == old.pathCaseInsensitive &&
  effectivePublicListeners new == effectivePublicListeners old

/-- One constructor for each message. -/
inductive TransitionError where
  /-- "resource {} scope cannot be removed or moved; first publish enforce=false at its
      existing scope" -/
  | resourceScope (resource : Bytes)
  /-- "active TCP mTLS listener must be disabled or removed in a prior revision before
      removing authentication" -/
  | tcpAuthentication
  /-- "workload HTTP listener must be removed in a prior revision before changing socket
      role" -/
  | workloadRole
  /-- "TCP listener must be removed in a prior revision before changing socket role" -/
  | tcpRole
  /-- "protected route {} requires explicit access_mode when replacing it" -/
  | accessMode (route : Bytes)
  deriving DecidableEq, Repr

/-- `Config::validate_transition_from`. -/
def Config.validateTransitionFrom (config previous : Config) : Except TransitionError Unit := do
  previous.http.forM fun old =>
    match old.resourcePolicy.filter ResourcePolicy.enforce with
    | none => .ok ()
    | some policy =>
      ensure (config.http.any (keepsScope old policy)) (.resourceScope policy.resourceId)
  (previous.tcp.filter fun old => old.enabled && old.inboundTls).forM fun old =>
    ensure ((config.tcp.filter fun route => route.enabled && route.listen == old.listen).all
      TcpRoute.inboundTls) .tcpAuthentication
  (previous.workloadHttp.filter WorkloadListener.enabled).forM fun old =>
    ensure (!config.tcp.any fun route => route.enabled && route.listen == old.listen) .workloadRole
  (previous.tcp.filter TcpRoute.enabled).forM fun old =>
    ensure (!config.workloadHttp.any fun listener =>
      listener.enabled && listener.listen == old.listen) .tcpRole
  let protectedIds := (previous.http.filter fun route => route.accessMode == .Protected).map Route.id
  config.http.forM fun route =>
    ensure (route.id ∉ protectedIds ∨ route.accessMode ≠ .legacy) (.accessMode route.id)

/-! ## What a kept scope means for requests -/

/-- A request on some listener, for some host and canonical path, is in the scope
    of a route. -/
def inScope (isMatch : Bytes → Bytes → Bool) (route : Route) (request : Arrived)
    (host : Option Bytes) (path : Bytes) : Bool :=
  listenerMatches route request && scopeHost isMatch route host &&
    pathMatches route.toHttpRoute path

/-- The route carries a resource policy for the resource. -/
def Carries (route : Route) (resource : Bytes) : Prop :=
  ∃ policy, route.resourcePolicy = some policy ∧ policy.resourceId = resource

section scopes

variable {isMatch : Bytes → Bytes → Bool} {old new route : Route} {request : Arrived}
  {host : Option Bytes}

/-- On a public listener a route is selected by its effective listener set. -/
theorem listenerMatches_public (hpublic : request.workload = false) :
    listenerMatches route request = true ↔
      request.listenerId.getD defaultListener ∈ effectivePublicListeners route := by
  unfold listenerMatches effectivePublicListeners
  rw [hpublic]
  by_cases hempty : route.listenerIds.isEmpty = true
  · simp [hempty]
  · simp [hempty]

/-- The workload listener sees only the routes that name no listener. -/
theorem listenerMatches_workload (hworkload : request.workload = true) :
    listenerMatches route request = true ↔ route.listenerIds = [] := by
  unfold listenerMatches
  rw [hworkload, if_pos rfl, List.isEmpty_iff]

theorem pathMatches_congr {r r' : HttpRoute} (hstart : r.pathPrefix = r'.pathPrefix)
    (hmatch : r.pathMatch = r'.pathMatch) (hcase : r.pathCaseInsensitive = r'.pathCaseInsensitive)
    (path : Bytes) : pathMatches r path = pathMatches r' path := by
  unfold pathMatches
  rw [hstart, hmatch, hcase]

/-- A route selects its hosts in one way only. -/
def OneHostForm (route : Route) : Prop :=
  route.host.isSome.toNat + route.hostRegex.isSome.toNat + (!route.hosts.isEmpty).toNat ≤ 1

theorem oneHostForm_of_validateRoute {publicIds : List Bytes}
    (h : validateRoute publicIds route = .ok ()) : OneHostForm route := by
  unfold validateRoute at h
  simp only [bind_eq_ok, ensure_eq_ok] at h
  obtain ⟨_, -, _, -, _, -, _, -, _, -, _, -, _, -, _, hform, -⟩ := h
  exact hform

theorem unrestricted_iff :
    unrestricted route = true ↔ route.host = none ∧ route.hosts = [] ∧ route.hostRegex = none := by
  simp [unrestricted, and_assoc]

/-- With one form, the patterns of a route without an expression are alternatives. -/
theorem hostMatches_patterns (hform : OneHostForm route) (hregex : route.hostRegex = none)
    (hrestricted : unrestricted route = false) {host : Bytes} :
    hostMatches isMatch route (some host) = true ↔
      ∃ pattern ∈ route.host.toList ++ route.hosts, patternMatches pattern host = true := by
  rw [hostMatches_some]
  cases hhost : route.host with
  | some pattern =>
    have hhosts : route.hosts = [] := by
      by_contra hne
      simp [OneHostForm, hhost, List.isEmpty_eq_false_iff.mpr hne] at hform
    simp [hhosts, hregex]
  | none =>
    have hhosts : route.hosts ≠ [] := by
      intro hnil
      rw [unrestricted_iff.mpr ⟨hhost, hnil, hregex⟩] at hrestricted
      cases hrestricted
    simp [hhosts, hregex]

/-- Routes with the same expression and one form accept the same hosts. -/
theorem hostMatches_regex (hold : OneHostForm old) (hnew : OneHostForm new)
    (hregex : old.hostRegex = new.hostRegex)
    (hsome : (old.hostRegex.isSome || new.hostRegex.isSome) = true)
    (hmatches : hostMatches isMatch old host = true) : hostMatches isMatch new host = true := by
  have honly : ∀ route : Route, OneHostForm route → route.hostRegex.isSome = true →
      route.host = none ∧ route.hosts = [] := by
    intro route hform hregex
    rw [OneHostForm, hregex] at hform
    constructor
    · cases hhost : route.host with
      | none => rfl
      | some pattern =>
        rw [hhost] at hform
        simp only [Option.isSome_some, Bool.toNat_true] at hform
        omega
    · by_contra hne
      simp [List.isEmpty_eq_false_iff.mpr hne] at hform
  rw [hregex, Bool.or_self] at hsome
  obtain ⟨hhost, hhosts⟩ := honly old hold (hregex ▸ hsome)
  obtain ⟨hhost', hhosts'⟩ := honly new hnew hsome
  unfold hostMatches at hmatches ⊢
  rwa [hhost', hhosts', ← hregex, ← hhost, ← hhosts]

/-- Hosts that are preserved are accepted by the new route where the old one
    accepted them. -/
theorem hostMatches_preserved (hold : OneHostForm old) (hnew : OneHostForm new)
    (hpreserved : resourceHostsPreserved old new = true)
    (hmatches : hostMatches isMatch old host = true) : hostMatches isMatch new host = true := by
  unfold resourceHostsPreserved at hpreserved
  split at hpreserved
  · next hunrestricted =>
    obtain ⟨hhost, hhosts, hregex⟩ := unrestricted_iff.mp hunrestricted
    exact hostMatches_of_unrestricted hhost hhosts hregex host
  · next hnew' =>
    have hnewRestricted : unrestricted new = false := Bool.eq_false_iff.mpr hnew'
    split at hpreserved
    · cases hpreserved
    · next hold' =>
      have holdRestricted : unrestricted old = false := Bool.eq_false_iff.mpr hold'
      cases host with
      | none =>
        rw [unrestricted_iff.mpr (hostMatches_none hmatches)] at holdRestricted
        cases holdRestricted
      | some host =>
        split at hpreserved
        · next hsome =>
          have hregex : old.hostRegex = new.hostRegex := beq_iff_eq.mp hpreserved
          exact hostMatches_regex hold hnew hregex hsome hmatches
        · next hnone =>
          obtain ⟨holdRegex, hnewRegex⟩ : old.hostRegex = none ∧ new.hostRegex = none := by
            simpa using hnone
          obtain ⟨pattern, hpattern, hmatch⟩ :=
            (hostMatches_patterns hold holdRegex holdRestricted).mp hmatches
          obtain ⟨next, hnext, hcase⟩ :=
            List.any_eq_true.mp (List.all_eq_true.mp hpreserved pattern hpattern)
          refine (hostMatches_patterns hnew hnewRegex hnewRestricted).mpr ⟨next, hnext, ?_⟩
          rw [← patternMatches_congr (eqIgnoreAsciiCase_iff.mp hcase) rfl]
          exact hmatch

theorem scopeHost_preserved (hold : OneHostForm old) (hnew : OneHostForm new)
    (hpreserved : resourceHostsPreserved old new = true)
    (hscope : scopeHost isMatch old host = true) : scopeHost isMatch new host = true := by
  unfold scopeHost at hscope ⊢
  rcases Bool.or_eq_true_iff.mp hscope with hexact | htrimmed
  · exact Bool.or_eq_true_iff.mpr (.inl (hostMatches_preserved hold hnew hpreserved hexact))
  · cases host with
    | none => cases htrimmed
    | some host =>
      exact Bool.or_eq_true_iff.mpr (.inr (hostMatches_preserved hold hnew hpreserved htrimmed))

end scopes

/-! ## Namespaces -/

section transition

variable {config previous : Config}

theorem oneHostForm_of_validate (h : config.validate = .ok ()) {route : Route}
    (hroute : route ∈ config.http) : OneHostForm route :=
  oneHostForm_of_validateRoute (forM_eq_ok.mp h route hroute)

variable {policy : ResourcePolicy}

/-- An accepted transition keeps the scope of every enforced route. -/
theorem exists_keepsScope (h : config.validateTransitionFrom previous = .ok ()) {old : Route}
    (hold : old ∈ previous.http) (hpolicy : old.resourcePolicy = some policy)
    (henforce : policy.enforce = true) : ∃ new ∈ config.http, keepsScope old policy new = true := by
  obtain ⟨_, hscopes, -⟩ := bind_eq_ok.mp h
  have hkept := forM_eq_ok.mp hscopes old hold
  simp only [hpolicy, Option.filter_some, henforce, if_true, ensure_eq_ok] at hkept
  exact List.any_eq_true.mp hkept

structure Kept (old : Route) (policy : ResourcePolicy) (new : Route) : Prop where
  carries : Carries new policy.resourceId
  hosts : resourceHostsPreserved old new = true
  path : ∀ path, pathMatches new.toHttpRoute path = pathMatches old.toHttpRoute path
  listeners : effectivePublicListeners new = effectivePublicListeners old

theorem kept_of_keepsScope {old new : Route} (h : keepsScope old policy new = true) :
    Kept old policy new := by
  simp only [keepsScope, Bool.and_eq_true, beq_iff_eq, Option.any_eq_true] at h
  obtain ⟨⟨⟨⟨⟨⟨next, hnext, hid, -⟩, hhosts⟩, hprefix⟩, hmatch⟩, hcase⟩, hlisteners⟩ := h
  exact ⟨⟨next, hnext, hid⟩, hhosts, pathMatches_congr hprefix hmatch hcase, hlisteners⟩

/-- Some route with a policy for the resource has the request in its scope. -/
def Config.Covers (config : Config) (isMatch : Bytes → Bytes → Bool) (resource : Bytes)
    (request : Arrived) (host : Option Bytes) (path : Bytes) : Prop :=
  ∃ route ∈ config.http, Carries route resource ∧ inScope isMatch route request host path = true

/-- A route that keeps the scope of the old one and names no listener. -/
def Config.KeepsUnscoped (config : Config) (old : Route) (policy : ResourcePolicy) : Prop :=
  ∃ new ∈ config.http, keepsScope old policy new = true ∧ new.listenerIds = []

/-- A route that keeps the scope covers the requests on the listeners it serves. -/
theorem covers_of_keepsScope {isMatch : Bytes → Bytes → Bool}
    (hprevious : previous.validate = .ok ()) (hconfig : config.validate = .ok ()) {old new : Route}
    (hold : old ∈ previous.http) (hnew : new ∈ config.http)
    (hkeeps : keepsScope old policy new = true) {request : Arrived}
    (hlistener : listenerMatches new request = true) {host : Option Bytes} {path : Bytes}
    (hscope : inScope isMatch old request host path = true) :
    config.Covers isMatch policy.resourceId request host path := by
  simp only [inScope, Bool.and_eq_true] at hscope
  obtain ⟨⟨-, hhost⟩, hpath⟩ := hscope
  have hkept := kept_of_keepsScope hkeeps
  refine ⟨new, hnew, hkept.carries, ?_⟩
  simp only [inScope, Bool.and_eq_true]
  refine ⟨⟨hlistener, ?_⟩, ?_⟩
  · exact scopeHost_preserved (oneHostForm_of_validate hprevious hold)
      (oneHostForm_of_validate hconfig hnew) hkept.hosts hhost
  · rw [hkept.path]
    exact hpath

/-- **Enforced namespaces across a transition.** Two validated configurations, an
    accepted transition, and a request in the scope of an enforced route. The new
    configuration covers the request when it came to a public listener, or when a
    route that keeps the scope still names no listener. A request on the workload
    listener is covered only if the resource has some route that names none; where
    the resource has no routes but those that keep the scope, this is the same
    condition. -/
theorem namespace_preserved (isMatch : Bytes → Bytes → Bool) (previous config : Config)
    (hprevious : previous.validate = .ok ()) (hconfig : config.validate = .ok ())
    (htransition : config.validateTransitionFrom previous = .ok ())
    (old : Route) (hold : old ∈ previous.http) (policy : ResourcePolicy)
    (hpolicy : old.resourcePolicy = some policy) (henforce : policy.enforce = true)
    (request : Arrived) (host : Option Bytes) (path : Bytes)
    (hscope : inScope isMatch old request host path = true) :
    (request.workload = false ∨ config.KeepsUnscoped old policy →
      config.Covers isMatch policy.resourceId request host path) ∧
    (config.Covers isMatch policy.resourceId request host path →
      request.workload = false ∨
        ∃ route ∈ config.http, Carries route policy.resourceId ∧ route.listenerIds = []) ∧
    ((∀ route ∈ config.http, Carries route policy.resourceId → keepsScope old policy route = true) →
      (config.Covers isMatch policy.resourceId request host path ↔
        request.workload = false ∨ config.KeepsUnscoped old policy)) := by
  have hcovers : request.workload = false ∨ config.KeepsUnscoped old policy →
      config.Covers isMatch policy.resourceId request host path := by
    intro hcondition
    cases hworkload : request.workload with
    | false =>
      obtain ⟨new, hnew, hkeeps⟩ := exists_keepsScope htransition hold hpolicy henforce
      refine covers_of_keepsScope hprevious hconfig hold hnew hkeeps ?_ hscope
      have hlistener : listenerMatches old request = true := by
        simp only [inScope, Bool.and_eq_true] at hscope
        exact hscope.1.1
      rw [listenerMatches_public hworkload, (kept_of_keepsScope hkeeps).listeners]
      exact (listenerMatches_public hworkload).mp hlistener
    | true =>
      -- The comparison says nothing about the workload listener.
      rcases hcondition with hpublic | ⟨new, hnew, hkeeps, hunscoped⟩
      · rw [hworkload] at hpublic
        cases hpublic
      · exact covers_of_keepsScope hprevious hconfig hold hnew hkeeps
          ((listenerMatches_workload hworkload).mpr hunscoped) hscope
  have hneeds : config.Covers isMatch policy.resourceId request host path →
      request.workload = false ∨
        ∃ route ∈ config.http, Carries route policy.resourceId ∧ route.listenerIds = [] := by
    rintro ⟨route, hroute, hcarries, hin⟩
    cases hworkload : request.workload with
    | false => exact .inl rfl
    | true =>
      simp only [inScope, Bool.and_eq_true] at hin
      exact .inr ⟨route, hroute, hcarries, (listenerMatches_workload hworkload).mp hin.1.1⟩
  refine ⟨hcovers, hneeds, fun hall => ⟨fun h => ?_, hcovers⟩⟩
  exact (hneeds h).imp_right fun ⟨route, hroute, hcarries, hunscoped⟩ =>
    ⟨route, hroute, hall route hroute hcarries, hunscoped⟩

end transition

/-! ## A route that names its listener -/

/-- One guarded application, on the listeners given, and a workload listener. -/
def appConfig (listenerIds : List Bytes) : Config :=
  ⟨[appRoute listenerIds], [], [⟨true, ⟨.v4 (10, 0, 0, 1), 8443⟩⟩], []⟩

def onPublic : Arrived := ⟨⟨some (ascii "app.test"), none, ascii "/admin"⟩, false, none⟩

def onWorkload : Arrived := ⟨⟨some (ascii "app.test"), none, ascii "/admin"⟩, true, none⟩

theorem namespace_preserved_on_public :
    (appConfig [defaultListener]).Covers literalMatch (ascii "app-admin") onPublic
      (some (ascii "app.test")) (ascii "/admin") :=
  (namespace_preserved literalMatch (appConfig []) (appConfig [defaultListener])
    (by decide +kernel) (by decide +kernel) (by decide +kernel) (appRoute []) List.mem_cons_self
    appGuard.policy rfl rfl onPublic (some (ascii "app.test")) (ascii "/admin")
    (by decide +kernel)).1 (.inl rfl)

/-- An enforced route names the default listener, where it named none. The public
    listeners agree, the transition is accepted, and requests on the workload
    listener lose their namespace. -/
theorem namespace_lost_on_workload :
    (appConfig []).validate = .ok () ∧ (appConfig [defaultListener]).validate = .ok () ∧
    (appConfig [defaultListener]).validateTransitionFrom (appConfig []) = .ok () ∧
    inScope literalMatch (appRoute []) onWorkload (some (ascii "app.test")) (ascii "/admin") =
      true ∧
    ¬ (appConfig [defaultListener]).Covers literalMatch (ascii "app-admin") onWorkload
      (some (ascii "app.test")) (ascii "/admin") := by
  refine ⟨by decide +kernel, by decide +kernel, by decide +kernel, by decide +kernel, ?_⟩
  rintro ⟨route, hroute, -, hscope⟩
  obtain rfl := List.mem_singleton.mp hroute
  exact absurd hscope (by decide +kernel)

end GatewayConfig
