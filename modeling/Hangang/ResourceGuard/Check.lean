import Hangang.Framework.Except
import Hangang.ResourceGuard.Route
import Hangang.ResourcePolicy.CanonicalPath

/-! # Resource Guards

    `resource_guard::check` looks at a request before a route is selected for it.
    Up to three hosts come with a request: that of the `Host` field, that of an
    absolute-form target and the one a trusted proxy forwards. The check decides on
    the first and refuses the request where the others could mean another resource. -/

open Bytes HostMatch

namespace ResourceGuard

/-- A guard of a snapshot: a route with its policy. -/
structure Guard where
  route : Route
  policy : ResourcePolicy
  compiled : route.resourcePolicy = some policy

/-- `resource_guard::same_host`. -/
def sameHost : Option Bytes → Option Bytes → Bool
  | some left, some right => eqIgnoreAsciiCase left right
  | none, none => true
  | _, _ => false

section check

variable (authorityHost : Bytes → Option Bytes) (isMatch : Bytes → Bytes → Bool)

/-- The three hosts of a request as the check compares them. -/
def candidates (request : Arrived) (forwardedHost : Option Bytes) : List (Option Bytes) :=
  [requestHost authorityHost request.toRequest, forwardedHost.bind authorityHost, request.uriHost]

/-- A route whose listener and host the request could mean. -/
def concerns (request : Arrived) (forwardedHost : Option Bytes) (route : Route) : Bool :=
  listenerMatches route request &&
    (candidates authorityHost request forwardedHost).any (scopeHost isMatch route)

/-- The guard applies to the host the check decides on and the canonical path. -/
def applies (request : Arrived) (path : Bytes) (route : Route) : Bool :=
  listenerMatches route request &&
    scopeHost isMatch route (requestHost authorityHost request.toRequest) &&
    pathMatches route.toHttpRoute path

/-- The loop over the guards. -/
def findResource (request : Arrived) (path : Bytes) :
    Option Bytes → List Guard → Except Nat (Option Bytes)
  | resource, [] => .ok resource
  | resource, guard :: guards =>
    if applies authorityHost isMatch request path guard.route then
      if resource.any fun old => old != guard.policy.resourceId then .error 403
      else findResource request path (some guard.policy.resourceId) guards
    else findResource request path resource guards

/-- `resource_guard::check`. -/
def check (guards : List Guard) (authenticationGuards : List Route) (request : Arrived)
    (forwardedHost : Option Bytes) : Except Nat (Option Bytes × Option Bytes) :=
  if guards.isEmpty && authenticationGuards.isEmpty then .ok (none, none)
  else
    let raw := requestHost authorityHost request.toRequest
    let forwarded := forwardedHost.bind authorityHost
    let absolute := request.uriHost
    if !(guards.map Guard.route ++ authenticationGuards).any
        (concerns authorityHost isMatch request forwardedHost) then .ok (none, none)
    else
      let hostBoundary := (guards.map Guard.route ++ authenticationGuards.filter fun route =>
          route.host.isSome || !route.hosts.isEmpty || route.hostRegex.isSome).any
        (concerns authorityHost isMatch request forwardedHost)
      if (hostBoundary && !sameHost raw forwarded) ||
          (absolute.any fun host => !sameHost raw (some host)) ||
          (raw.any fun host => host.getLast? == some 46) then .error 400
      else
        match ResourcePolicy.canonicalPath request.path with
        | .error _ => .error 400
        | .ok path =>
          if authenticationGuards.any fun route =>
              !route.enabled && route.responseTransform &&
                applies authorityHost isMatch request path route then .error 404
          else
            (findResource authorityHost isMatch request path none guards).map fun resource =>
              (resource, some path)

/-! ## The loop -/

variable {authorityHost isMatch} {request : Arrived} {path : Bytes}

/-- The loop ends with the resource it started with, or with that of the guards
    that apply, which all have the same. -/
theorem findResource_eq_ok {guards : List Guard} {resource result : Option Bytes}
    (h : findResource authorityHost isMatch request path resource guards = .ok result) :
    (∀ id, resource = some id → result = some id) ∧
    ∀ guard ∈ guards, applies authorityHost isMatch request path guard.route = true →
      result = some guard.policy.resourceId := by
  induction guards generalizing resource with
  | nil =>
    obtain rfl := Except.ok.inj h
    exact ⟨fun _ h => h, fun _ h => absurd h List.not_mem_nil⟩
  | cons guard guards ih =>
    rw [findResource] at h
    split at h
    · next happlies =>
      split at h
      · cases h
      · next hsame =>
        obtain ⟨hkeeps, hrest⟩ := ih h
        have hresult : result = some guard.policy.resourceId := hkeeps _ rfl
        refine ⟨fun id hid => ?_, fun other hother hother' => ?_⟩
        · subst hid
          have hid : id = guard.policy.resourceId := by simpa using hsame
          rw [hresult, hid]
        · rcases List.mem_cons.mp hother with rfl | hmem
          · exact hresult
          · exact hrest other hmem hother'
    · next hnot =>
      obtain ⟨hkeeps, hrest⟩ := ih h
      refine ⟨hkeeps, fun other hother hother' => ?_⟩
      rcases List.mem_cons.mp hother with rfl | hmem
      · exact absurd hother' hnot
      · exact hrest other hmem hother'

/-! ## The hosts -/

variable {host : Bytes} {route : Route}

theorem sameHost_some {raw : Option Bytes} (h : sameHost raw (some host) = true) :
    ∃ host', raw = some host' ∧ lower host' = lower host := by
  cases raw with
  | none => cases h
  | some host' => exact ⟨host', rfl, eqIgnoreAsciiCase_iff.mp h⟩

/-- Without a root dot there is nothing to trim. -/
theorem trimEndMatches_of_getLast? {b : UInt8} {x : Bytes} (h : x.getLast? ≠ some b) :
    trimEndMatches b x = x := by
  unfold trimEndMatches
  cases hx : x using List.reverseRecOn with
  | nil => rfl
  | append_singleton init last =>
    rw [hx, List.getLast?_append, List.getLast?_singleton] at h
    rw [List.rdropWhile_concat_neg]
    simpa using h

theorem getLast?_congr {x y : Bytes} (hxy : lower x = lower y) :
    (x.getLast? == some 46) = (y.getLast? == some 46) := by
  rw [← getLast?_lower_beq rfl rfl, hxy, getLast?_lower_beq rfl rfl]

/-- The hosts that a request presents: in its `Host` field, in an absolute-form
    target, and forwarded by a trusted proxy. -/
def presentedHosts (authorityHost : Bytes → Option Bytes) (request : Arrived)
    (forwardedHost : Option Bytes) : List (Option Bytes) :=
  [(request.hostHeader.bind Http.toStr).bind authorityHost, request.uriHost,
    forwardedHost.bind authorityHost]

/-- The host in any spelling stands for the host without root dots. -/
def acceptsHost (isMatch : Bytes → Bytes → Bool) (route : Route) (host : Option Bytes) : Prop :=
  hostMatches isMatch route (host.map (trimEndMatches 46)) = true

theorem scopeHost_of_acceptsHost {host : Option Bytes} (h : acceptsHost isMatch route host) :
    scopeHost isMatch route host = true := by
  unfold acceptsHost at h
  cases host with
  | none => exact Bool.or_eq_true_iff.mpr (.inl h)
  | some host => exact Bool.or_eq_true_iff.mpr (.inr h)

theorem scopeHost_of_unrestricted (h : acceptsHost isMatch route none) (host : Option Bytes) :
    scopeHost isMatch route host = true := by
  obtain ⟨hhost, hhosts, hregex⟩ := hostMatches_none h
  exact Bool.or_eq_true_iff.mpr (.inl (hostMatches_of_unrestricted hhost hhosts hregex host))

/-- The host of the `Host` field is the one the check decides on. -/
theorem requestHost_of_header
    (h : (request.hostHeader.bind Http.toStr).bind authorityHost = some host) :
    requestHost authorityHost request.toRequest = some host := by
  rw [requestHost, h, Option.some_or]

/-- A guard that accepts any presented host makes the check compare the hosts. -/
theorem concerns_of_acceptsHost {forwardedHost host : Option Bytes}
    (hlistener : listenerMatches route request = true)
    (hmem : host ∈ presentedHosts authorityHost request forwardedHost)
    (haccepts : acceptsHost isMatch route host) :
    concerns authorityHost isMatch request forwardedHost route = true := by
  refine Bool.and_eq_true_iff.mpr ⟨hlistener, List.any_eq_true.mpr ?_⟩
  cases host with
  | none => exact ⟨_, List.mem_cons_self, scopeHost_of_unrestricted haccepts _⟩
  | some host =>
    refine ⟨some host, ?_, scopeHost_of_acceptsHost haccepts⟩
    simp only [presentedHosts, candidates, List.mem_cons, List.not_mem_nil, or_false] at hmem ⊢
    rcases hmem with hheader | huri | hforwarded
    · exact .inl (requestHost_of_header hheader.symm).symm
    · exact .inr (.inr huri)
    · exact .inr (.inl hforwarded)

/-- What the check asks of the hosts before it decides. -/
structure Agree (authorityHost : Bytes → Option Bytes) (request : Arrived)
    (forwardedHost : Option Bytes) : Prop where
  forwarded : sameHost (requestHost authorityHost request.toRequest)
    (forwardedHost.bind authorityHost) = true
  absolute : ∀ host, request.uriHost = some host →
    sameHost (requestHost authorityHost request.toRequest) (some host) = true
  rooted : ∀ host, requestHost authorityHost request.toRequest = some host →
    host.getLast? ≠ some 46

theorem scopeHost_of_sameHost {raw : Option Bytes} (hcase : CaseInsensitive isMatch route)
    (hsame : sameHost raw (some host) = true)
    (hrooted : ∀ host, raw = some host → host.getLast? ≠ some 46)
    (haccepts : acceptsHost isMatch route (some host)) : scopeHost isMatch route raw = true := by
  obtain ⟨host', rfl, hlower⟩ := sameHost_some hsame
  have hdot : host.getLast? ≠ some 46 := by
    have hdot' := hrooted host' rfl
    rw [Ne, ← beq_iff_eq, getLast?_congr hlower, beq_iff_eq] at hdot'
    exact hdot'
  have hmatch : hostMatches isMatch route (some host) = true := by
    have h := haccepts
    rwa [acceptsHost, Option.map_some, trimEndMatches_of_getLast? hdot] at h
  rw [scopeHost, hostMatches_congr hcase hlower, hmatch, Bool.true_or]

/-- Hosts that agree mean the same resources, in whatever spelling. -/
theorem Agree.scopeHost {forwardedHost host : Option Bytes}
    (hagree : Agree authorityHost request forwardedHost) (hcase : CaseInsensitive isMatch route)
    (hmem : host ∈ presentedHosts authorityHost request forwardedHost)
    (haccepts : acceptsHost isMatch route host) :
    scopeHost isMatch route (requestHost authorityHost request.toRequest) = true := by
  cases host with
  | none => exact scopeHost_of_unrestricted haccepts _
  | some host =>
    apply scopeHost_of_sameHost hcase ?_ hagree.rooted haccepts
    simp only [presentedHosts, List.mem_cons, List.not_mem_nil, or_false] at hmem
    rcases hmem with hheader | huri | hforwarded
    · rw [requestHost_of_header hheader.symm]
      exact eqIgnoreAsciiCase_iff.mpr rfl
    · exact hagree.absolute host huri.symm
    · have h := hagree.forwarded
      rwa [← hforwarded] at h

/-! ## The check -/

/-- What an accepted request has passed, if some guard concerns it. -/
theorem check_eq_ok {guards : List Guard} {authenticationGuards : List Route}
    {forwardedHost resource canonical : Option Bytes} {guard : Guard} (hguard : guard ∈ guards)
    (hconcerns : concerns authorityHost isMatch request forwardedHost guard.route = true)
    (h : check authorityHost isMatch guards authenticationGuards request forwardedHost =
      .ok (resource, canonical)) :
    Agree authorityHost request forwardedHost ∧
    ∃ path, ResourcePolicy.canonicalPath request.path = .ok path ∧ canonical = some path ∧
      findResource authorityHost isMatch request path none guards = .ok resource := by
  have hroute : guard.route ∈ guards.map Guard.route := List.mem_map_of_mem hguard
  -- the guard keeps both early returns from being taken
  have hany : ∀ others : List Route, (guards.map Guard.route ++ others).any
      (concerns authorityHost isMatch request forwardedHost) = true := fun others =>
    List.any_eq_true.mpr ⟨guard.route, List.mem_append_left _ hroute, hconcerns⟩
  unfold check at h
  rw [if_neg (by simp [List.ne_nil_of_mem hguard])] at h
  dsimp only at h
  rw [if_neg (by simp [hany]), hany, Bool.true_and] at h
  split at h
  · cases h
  · next hhosts =>
    simp only [Bool.or_eq_true, not_or, Bool.not_eq_true, Bool.not_eq_false'] at hhosts
    obtain ⟨⟨hforwarded, habsolute⟩, hrooted⟩ := hhosts
    refine ⟨⟨hforwarded, fun host hhost => ?_, fun host hhost => ?_⟩, ?_⟩
    · simpa [hhost] using habsolute
    · simpa [hhost] using hrooted
    · split at h
      · cases h
      · next path hpath =>
        split at h
        · cases h
        · obtain ⟨result, hresult, heq⟩ := Except.map_eq_ok.mp h
          obtain ⟨rfl, rfl⟩ := Prod.mk.inj heq
          exact ⟨path, hpath, rfl, hresult⟩

/-- **Resource guard completeness.** The request is accepted. Every guard that
    selects its listener and canonical path and accepts any one of the presented
    hosts, without its root dots, has the resource that the check returned. -/
theorem check_complete (authorityHost : Bytes → Option Bytes) (isMatch : Bytes → Bytes → Bool)
    (guards : List Guard) (hcase : ∀ guard ∈ guards, CaseInsensitive isMatch guard.route)
    (authenticationGuards : List Route)
    (request : Arrived) (forwardedHost resource canonical : Option Bytes)
    (hcheck : check authorityHost isMatch guards authenticationGuards request forwardedHost =
      .ok (resource, canonical))
    (guard : Guard) (hguard : guard ∈ guards)
    (hlistener : listenerMatches guard.route request = true)
    (host : Option Bytes) (hpresented : host ∈ presentedHosts authorityHost request forwardedHost)
    (hhost : acceptsHost isMatch guard.route host)
    (path : Bytes) (hpath : ResourcePolicy.canonicalPath request.path = .ok path)
    (hmatches : pathMatches guard.route.toHttpRoute path = true) :
    resource = some guard.policy.resourceId := by
  have hconcerns := concerns_of_acceptsHost hlistener hpresented hhost
  obtain ⟨hagree, path', hpath', -, hresult⟩ := check_eq_ok hguard hconcerns hcheck
  obtain rfl : path = path' := Except.ok.inj (hpath.symm.trans hpath')
  apply (findResource_eq_ok hresult).2 guard hguard
  have hscope := hagree.scopeHost (hcase guard hguard) hpresented hhost
  simp [applies, hlistener, hscope, hmatches]

end check

/-! ## A guarded application -/

/-- A protected route of one host below one path. -/
def appRoute (listenerIds : List Bytes) : Route where
  pathPrefix := some (ascii "/admin")
  pathMatch := .segmentPrefix
  pathCase := none
  auth := false
  basicAuth := true
  jwtAuth := false
  accessMode := .Protected
  id := ascii "app"
  enabled := true
  listenerIds := listenerIds
  host := some (ascii "app.test")
  hosts := []
  hostRegex := none
  workloadAuth := false
  responseTransform := false
  resourcePolicy := some ⟨ascii "app-admin", true, false, false⟩

def appGuard : Guard := ⟨appRoute [], ⟨ascii "app-admin", true, false, false⟩, rfl⟩

/-- Expressions without operators. -/
def literalMatch (source host : Bytes) : Bool := lower source == lower host

theorem literalMatch_caseInsensitive (route : Route) : CaseInsensitive literalMatch route := by
  intro source _ host host' h
  rw [literalMatch, literalMatch, h]

/-- The host of an authority without a port. -/
def portlessHost (value : Bytes) : Option Bytes :=
  if validLabels value false then some value else none

/-- The `Host` field and the forwarded host differ in case. -/
def appRequest : Arrived := ⟨⟨some (ascii "App.Test"), none, ascii "/admin/%75sers"⟩, false, none⟩

theorem check_complete_app :
    check portlessHost literalMatch [appGuard] [] appRequest (some (ascii "app.test")) =
      .ok (some (ascii "app-admin"), some (ascii "/admin/users")) ∧
    some (ascii "app-admin") = some appGuard.policy.resourceId := by
  have hcheck : check portlessHost literalMatch [appGuard] [] appRequest
      (some (ascii "app.test")) =
        .ok (some (ascii "app-admin"), some (ascii "/admin/users")) := by decide +kernel
  refine ⟨hcheck, ?_⟩
  apply check_complete portlessHost literalMatch [appGuard]
    (fun guard _ => literalMatch_caseInsensitive guard.route) [] appRequest _ _ _ hcheck appGuard
    List.mem_cons_self (by decide) (some (ascii "app.test"))
    (by decide +kernel) (show hostMatches _ _ _ = true by decide +kernel) (ascii "/admin/users")
    (by decide +kernel) (by decide +kernel)

end ResourceGuard
