import Hangang.GatewayConfig.Transition

/-! # Warnings of a Configuration

    `Config::warnings` looks for unauthenticated routes that are selected before a
    protected route and can take its requests. It never sees a request: hosts are
    compared by normalised keys and paths by the intersection of scopes, so it has
    to report every pair that some request could meet. -/

open Bytes HostMatch ResourceGuard

namespace GatewayConfig

/-- A route with the field that orders the selection. -/
structure ListedRoute extends Route where
  priority : Int
  deriving DecidableEq, Repr

/-! ## Hosts -/

/-- `Key` of `hosts_may_overlap`. -/
inductive HostKey where
  | ip (address : IpAddr)
  | name (text : Bytes)
  deriving DecidableEq, Repr

def hostKey (pattern : Bytes) : HostKey :=
  match parseIp pattern with
  | some address => .ip address
  | none => .name (lower (trimEndMatches 46 pattern))

/-- `patterns` of `hosts_may_overlap`; `none` is a route that may match anything. -/
def hostKeys (route : Route) : Option (List HostKey) :=
  if route.hostRegex.isSome then none
  else
    let all := route.hosts ++ route.host.toList
    if all.isEmpty || all.any isGlob then none else some (all.map hostKey)

/-- `hosts_may_overlap`. -/
def hostsMayOverlap (left right : Route) : Bool :=
  match hostKeys left, hostKeys right with
  | some a, some b => a.any fun key => b.contains key
  | _, _ => true

theorem lower_trimEndMatches_dot (x : Bytes) :
    lower (trimEndMatches 46 x) = trimEndMatches 46 (lower x) := by
  have hdot : ((· == 46) ∘ toAsciiLowercase : UInt8 → Bool) = (· == 46) := by
    funext b
    exact beq_toAsciiLowercase rfl rfl
  unfold lower trimEndMatches List.rdropWhile
  rw [← List.map_reverse, List.dropWhile_map, hdot, List.map_reverse]

/-- A literal pattern has the key of each host that it matches. -/
theorem hostKey_eq {pattern host : Bytes} (hglob : isGlob pattern = false)
    (h : patternMatches pattern host = true) : hostKey pattern = hostKey host := by
  have hmatch : matchesChecked pattern host = some true := beq_iff_eq.mp h
  unfold matchesChecked at hmatch
  split at hmatch
  · simp at hmatch
  · simp only [hglob, Bool.not_false, if_true] at hmatch
    cases hip : parseIp pattern with
    | some expected =>
      simp only [hip, Option.some.injEq, beq_iff_eq] at hmatch
      simp [hostKey, hip, hmatch]
    | none =>
      simp only [hip, Option.some.injEq, Bool.and_eq_true] at hmatch
      have hlower : lower pattern = lower host := eqIgnoreAsciiCase_iff.mp hmatch.2
      -- The host is no address either: the two differ in case only.
      have hname : parseIp host = none := by
        rw [← parseIp_lower, ← hlower, parseIp_lower, hip]
      simp only [hostKey, hip, hname, lower_trimEndMatches_dot, hlower]

section overlap

variable {isMatch : Bytes → Bytes → Bool}

/-- The key of an accepted host is among the keys of the route. -/
theorem hostKey_mem {route : Route} {actual : Option Bytes} {keys : List HostKey}
    (hkeys : hostKeys route = some keys) (h : hostMatches isMatch route actual = true) :
    ∃ host, actual = some host ∧ hostKey host ∈ keys := by
  unfold hostKeys at hkeys
  split at hkeys
  · cases hkeys
  · dsimp only at hkeys
    split at hkeys
    · cases hkeys
    · next hall =>
      simp only [Bool.or_eq_true, not_or, Bool.not_eq_true, List.isEmpty_eq_false_iff,
        List.any_eq_false] at hall
      obtain ⟨hnonempty, hliteral⟩ := hall
      obtain rfl := Option.some.inj hkeys
      cases actual with
      | none =>
        obtain ⟨hhost, hhosts, -⟩ := hostMatches_none h
        simp [hhost, hhosts] at hnonempty
      | some host =>
        obtain ⟨hone, hmany, -⟩ := hostMatches_some.mp h
        -- Both conditions hold, so whichever is present gives a pattern.
        have hpattern : ∃ pattern ∈ route.hosts ++ route.host.toList,
            patternMatches pattern host = true := by
          by_cases hhosts : route.hosts = []
          · cases hhost : route.host with
            | none => simp [hhost, hhosts] at hnonempty
            | some pattern => exact ⟨pattern, by simp, hone pattern hhost⟩
          · obtain ⟨pattern, hmem, hmatch⟩ := hmany hhosts
            exact ⟨pattern, List.mem_append_left _ hmem, hmatch⟩
        obtain ⟨pattern, hmem, hmatch⟩ := hpattern
        have hglob : isGlob pattern = false := hliteral pattern hmem
        refine ⟨host, rfl, ?_⟩
        rw [← hostKey_eq hglob hmatch]
        exact List.mem_map_of_mem hmem

/-- Two routes that accept one host may overlap. -/
theorem hostsMayOverlap_of_hostMatches {left right : Route} {actual : Option Bytes}
    (hleft : hostMatches isMatch left actual = true)
    (hright : hostMatches isMatch right actual = true) : hostsMayOverlap left right = true := by
  unfold hostsMayOverlap
  split
  · next a b ha hb =>
    obtain ⟨host, hactual, hmem⟩ := hostKey_mem ha hleft
    obtain ⟨host', hactual', hmem'⟩ := hostKey_mem hb hright
    obtain rfl : host = host' := Option.some.inj (hactual.symm.trans hactual')
    exact List.any_eq_true.mpr ⟨hostKey host, hmem, List.contains_iff_mem.mpr hmem'⟩
  · rfl

end overlap

/-! ## The findings -/

/-- `selected_before`: a higher priority first, ties by the order of the configuration. -/
def selectedBefore (first second : Nat × ListedRoute) : Bool :=
  first.2.priority > second.2.priority ||
    (first.2.priority == second.2.priority && first.1 < second.1)

def shadowFinding (other guarded : ListedRoute) : Bytes :=
  ascii "route " ++ other.id ++
    ascii " (unauthenticated) is selected before protected route " ++ guarded.id ++
    ascii " and its path scope intersects " ++ guarded.pathPrefix.getD (ascii "/") ++
    ascii ": it can shadow the protection on overlapping hosts"

def caseFinding (route : ListedRoute) : Bytes :=
  ascii "route " ++ route.id ++ ascii " protects path_prefix " ++ route.pathPrefix.getD [] ++
    ascii " with path_case sensitive: a case variant of the prefix selects a sibling route" ++
    ascii " and bypasses this protection when the upstream is case-insensitive"

/-- The inner loop of `warnings`: one protected route against one other. -/
def shadows (pi : Nat) (guarded : ListedRoute) (qi : Nat) (other : ListedRoute) : Bool :=
  !(qi == pi || !other.enabled || other.isPathScopedProtection || other.auth || other.basicAuth ||
    other.jwtAuth || other.accessMode == .Protected ||
    !selectedBefore (qi, other) (pi, guarded) || !hostsMayOverlap other.toRoute guarded.toRoute ||
    decide (Disjoint (effectivePublicListeners other.toRoute)
      (effectivePublicListeners guarded.toRoute))) &&
  scopesIntersect (routeScope other.toHttpRoute) (routeScope guarded.toHttpRoute)

/-- `Config::warnings`. -/
def warnings (http : List ListedRoute) : List Bytes :=
  (http.zipIdx.flatMap fun (guarded, pi) =>
    if !guarded.isPathScopedProtection || !guarded.enabled then []
    else (http.zipIdx.filter fun (other, qi) => shadows pi guarded qi other).map
      fun (other, _) => shadowFinding other guarded) ++
  (http.filter fun route =>
    route.pathCase == some .sensitive && route.isPathScopedProtection).map caseFinding

theorem mem_warnings_of_shadows {http : List ListedRoute} {pi qi : Nat}
    {guarded other : ListedRoute} (hp : http[pi]? = some guarded) (hq : http[qi]? = some other)
    (hprotects : guarded.isPathScopedProtection = true) (henabled : guarded.enabled = true)
    (h : shadows pi guarded qi other = true) : shadowFinding other guarded ∈ warnings http := by
  refine List.mem_append_left _ (List.mem_flatMap.mpr ⟨(guarded, pi), ?_, ?_⟩)
  · exact List.mk_mem_zipIdx_iff_getElem?.mpr hp
  · simp only [hprotects, henabled, Bool.not_true, Bool.or_false, Bool.false_eq_true, if_false]
    refine List.mem_map.mpr ⟨(other, qi), List.mem_filter.mpr ⟨?_, h⟩, rfl⟩
    exact List.mk_mem_zipIdx_iff_getElem?.mpr hq

/-- A route that asks its callers for nothing. -/
def Unauthenticated (route : HttpRoute) : Prop :=
  route.auth = false ∧ route.basicAuth = false ∧ route.jwtAuth = false ∧
    route.accessMode ≠ .Protected

instance (route : HttpRoute) : Decidable (Unauthenticated route) :=
  inferInstanceAs (Decidable (_ ∧ _ ∧ _ ∧ _))

theorem Unauthenticated.isPathScopedProtection {route : HttpRoute} (h : Unauthenticated route) :
    route.isPathScopedProtection = false := by
  obtain ⟨hauth, hbasic, hjwt, haccess⟩ := h
  simp [HttpRoute.isPathScopedProtection, hauth, hbasic, hjwt, haccess]

/-- **Shadow warnings are complete.** An enabled route protects a path, an enabled
    route without authentication is selected before it, and there are a public
    listener, a host and a path for which both routes are candidates. Then the pair is
    reported. The configuration need not even be a valid one. -/
theorem shadow_reported (isMatch : Bytes → Bytes → Bool) {http : List ListedRoute} {pi qi : Nat}
    {guarded other : ListedRoute} (hp : http[pi]? = some guarded) (hq : http[qi]? = some other)
    (hprotects : guarded.isPathScopedProtection = true) (henabled : guarded.enabled = true)
    (hother : other.enabled = true) (hopen : Unauthenticated other.toHttpRoute)
    (hbefore : selectedBefore (qi, other) (pi, guarded) = true)
    (hlistener : ∃ request : Arrived, request.workload = false ∧
      listenerMatches other.toRoute request = true ∧
      listenerMatches guarded.toRoute request = true)
    (hhost : ∃ actual, hostMatches isMatch other.toRoute actual = true ∧
      hostMatches isMatch guarded.toRoute actual = true)
    (hpath : ∃ path, pathMatches other.toHttpRoute path = true ∧
      pathMatches guarded.toHttpRoute path = true) :
    shadowFinding other guarded ∈ warnings http := by
  have hunscoped : other.isPathScopedProtection = false := hopen.isPathScopedProtection
  have hne : qi ≠ pi := by
    rintro rfl
    obtain rfl : other = guarded := Option.some.inj (hq.symm.trans hp)
    exact absurd hprotects (Bool.eq_false_iff.mp hunscoped)
  -- each of the three overlaps is decided without a request, and never too narrowly
  have hhosts : hostsMayOverlap other.toRoute guarded.toRoute = true := by
    obtain ⟨actual, hleft, hright⟩ := hhost
    exact hostsMayOverlap_of_hostMatches hleft hright
  have hlisteners : ¬ Disjoint (effectivePublicListeners other.toRoute)
      (effectivePublicListeners guarded.toRoute) := by
    obtain ⟨request, hpublic, hleft, hright⟩ := hlistener
    rw [listenerMatches_public hpublic] at hleft hright
    exact Finset.not_disjoint_iff.mpr ⟨_, hleft, hright⟩
  have hscopes := (scopesIntersect_routeScope_iff other.toHttpRoute guarded.toHttpRoute).mpr hpath
  obtain ⟨hauth, hbasic, hjwt, haccess⟩ := hopen
  refine mem_warnings_of_shadows hp hq hprotects henabled ?_
  simp [shadows, hne, hother, hunscoped, hauth, hbasic, hjwt, haccess, hbefore, hhosts,
    hlisteners, hscopes]

/-- An open route for every path of a host. -/
def siteRoute : ListedRoute :=
  ⟨⟨⟨none, .Prefix, none, false, false, false, .legacy⟩, ascii "site", true, [],
    some (ascii "A.example"), [], none, false, false, none⟩, 0⟩

/-- A protected path of the same host, in another spelling. -/
def adminRoute : ListedRoute :=
  ⟨⟨⟨some (ascii "/admin"), .Prefix, none, true, false, false, .legacy⟩, ascii "admin", true, [],
    some (ascii "a.example"), [], none, false, false, none⟩, 0⟩

theorem shadow_reported_site : shadowFinding siteRoute adminRoute ∈
    warnings [siteRoute, adminRoute] := by
  have hp : [siteRoute, adminRoute][1]? = some adminRoute := rfl
  have hq : [siteRoute, adminRoute][0]? = some siteRoute := rfl
  refine shadow_reported (fun _ _ => false) hp hq (by decide) rfl rfl (by decide) (by decide)
    ?_ ?_ ?_
  · exact ⟨⟨⟨none, none, []⟩, false, none⟩, by decide⟩
  · exact ⟨some (ascii "a.Example"), by decide +kernel⟩
  · exact ⟨ascii "/admin", by decide +kernel⟩

end GatewayConfig
