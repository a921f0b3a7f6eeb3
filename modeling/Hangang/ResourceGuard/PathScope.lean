import Hangang.Framework.Http
import Mathlib.Tactic.Common

/-! # Path Scopes of Routes

    `resource_guard::path_matches` decides whether a route's path condition
    accepts a request path. `resource_guard::scopes_intersect` decides, while a
    configuration is validated, whether some path is accepted by two routes at
    once, by splitting each scope into atoms and comparing the atoms.

    The second function never looks at a path, so its answer has to be related
    to all of them. The bridge is the set of paths an atom stands for:

    * `Atom.Accepts` says which paths an atom stands for under a case rule;
    * `pathMatches_iff` shows that a route accepts exactly the union over its
      atoms;
    * `meet_iff` shows that two atoms meet exactly when they share a path. The
      shared path takes the casing of whichever side is case-sensitive. -/

open Bytes

namespace ResourceGuard

/-! ## The request -/

/-- What host and path selection reads of a request. -/
structure Request where
  /-- The first `Host` field. -/
  hostHeader : Option Bytes
  /-- The host of the authority of an absolute-form request target. -/
  uriHost : Option Bytes
  /-- `request.uri().path()`, undecoded. -/
  path : Bytes
  deriving DecidableEq, Repr

/-- `resource_guard::request_host`. Splitting an authority into host and port is the HTTP
    library's, and a parameter of everything that selects by host. -/
def requestHost (authorityHost : Bytes → Option Bytes) (request : Request) : Option Bytes :=
  ((request.hostHeader.bind Http.toStr).bind authorityHost).or request.uriHost

/-! ## The routes -/

inductive PathMatch where
  | Prefix
  | exact
  | segmentPrefix
  deriving DecidableEq, Repr

inductive PathCase where
  | sensitive
  | insensitive
  deriving DecidableEq, Repr

inductive AccessMode where
  | legacy
  | Public
  | application
  | Protected
  deriving DecidableEq, Repr

/-- The fields of `config::HttpRoute` that decide its path scope. The three
    authenticators are read only for their presence. -/
structure HttpRoute where
  pathPrefix : Option Bytes
  pathMatch : PathMatch
  pathCase : Option PathCase
  auth : Bool
  basicAuth : Bool
  jwtAuth : Bool
  accessMode : AccessMode
  deriving DecidableEq, Repr

/-- `HttpRoute::is_path_scoped_protection`. -/
def HttpRoute.isPathScopedProtection (r : HttpRoute) : Bool :=
  r.pathPrefix.isSome &&
    (r.auth || r.basicAuth || r.jwtAuth || r.accessMode == .Protected)

/-- `HttpRoute::path_case_insensitive`. -/
def HttpRoute.pathCaseInsensitive (r : HttpRoute) : Bool :=
  match r.pathCase with
  | some .insensitive => true
  | some .sensitive => false
  | none => r.isPathScopedProtection

/-- The comparison both functions close over: bytes, or bytes up to ASCII case. -/
def same (fold : Bool) (left right : Bytes) : Bool :=
  if fold then eqIgnoreAsciiCase left right else left == right

/-- The `starts` closure of `path_matches`. -/
def starts (fold : Bool) (path operand : Bytes) : Bool :=
  decide (operand.length ≤ path.length) && same fold (path.take operand.length) operand

/-- `resource_guard::path_matches`. -/
def pathMatches (r : HttpRoute) (path : Bytes) : Bool :=
  match r.pathPrefix with
  | none => true
  | some operand =>
    let fold := r.pathCaseInsensitive
    match r.pathMatch with
    | .Prefix => starts fold path operand
    | .exact => same fold path operand
    | .segmentPrefix =>
      let base := trimEndMatches 47 operand
      base.isEmpty ||
        (starts fold path base &&
          (path.length == base.length || path[base.length]? == some 47))

/-! ## The intersection test -/

/-- A scope: mode, operand and whether ASCII case is ignored. -/
structure Scope where
  mode : PathMatch
  operand : Bytes
  insensitive : Bool
  deriving DecidableEq, Repr

inductive Atom where
  | exact (x : Bytes)
  | Prefix (x : Bytes)
  deriving DecidableEq, Repr

/-- The `atoms` function of `scopes_intersect`. -/
def atoms (s : Scope) : List Atom :=
  match s.mode with
  | .Prefix => [.Prefix s.operand]
  | .exact => [.exact s.operand]
  | .segmentPrefix =>
    let base := trimEndMatches 47 s.operand
    if base.isEmpty then [.Prefix []] else [.exact base, .Prefix (base ++ [47])]

/-- The comparison of two atoms in `scopes_intersect`. -/
def meet (fold : Bool) : Atom → Atom → Bool
  | .exact x, .exact y => same fold x y
  | .exact x, .Prefix y => decide (y.length ≤ x.length) && same fold (x.take y.length) y
  | .Prefix y, .exact x => decide (y.length ≤ x.length) && same fold (x.take y.length) y
  | .Prefix x, .Prefix y =>
    let n := min x.length y.length
    same fold (x.take n) (y.take n)

/-- `resource_guard::scopes_intersect`. -/
def scopesIntersect (a b : Scope) : Bool :=
  let fold := a.insensitive || b.insensitive
  (atoms a).any fun left => (atoms b).any fun right => meet fold left right

/-- `config::route_scope`. -/
def routeScope (r : HttpRoute) : Scope :=
  match r.pathPrefix with
  | some operand => ⟨r.pathMatch, operand, r.pathCaseInsensitive⟩
  | none => ⟨.Prefix, [], false⟩

/-- The route that selects by a scope: its operand, its mode and its case rule. -/
def Scope.route (s : Scope) : HttpRoute where
  pathPrefix := some s.operand
  pathMatch := s.mode
  pathCase := some (if s.insensitive then .insensitive else .sensitive)
  auth := false
  basicAuth := false
  jwtAuth := false
  accessMode := .legacy

@[simp] theorem Scope.route_pathCaseInsensitive (s : Scope) :
    s.route.pathCaseInsensitive = s.insensitive := by
  cases h : s.insensitive <;> simp [Scope.route, HttpRoute.pathCaseInsensitive, h]

/-! ## The comparison -/

variable {fold fa fb : Bool} {x y : Bytes}

theorem same_iff :
    same fold x y = true ↔
      (if fold then x.map toAsciiLowercase = y.map toAsciiLowercase else x = y) := by
  cases fold <;> simp [same, eqIgnoreAsciiCase]

@[simp] theorem same_refl (fold : Bool) (x : Bytes) : same fold x x = true := by
  cases fold <;> simp [same_iff]

theorem same_symm (h : same fold x y = true) :
    same fold y x = true := by
  cases fold <;> simp only [same_iff, if_true, if_false, Bool.false_eq_true] at h ⊢ <;>
    exact h.symm

theorem same_trans {z : Bytes} (hxy : same fold x y = true) (hyz : same fold y z = true) :
    same fold x z = true := by
  cases fold <;>
    simp only [same_iff, if_true, if_false, Bool.false_eq_true] at hxy hyz ⊢ <;>
    exact hxy.trans hyz

/-- A comparison under one of two case rules holds under the weaker one. -/
theorem same_or_left (fb : Bool) (h : same fa x y = true) :
    same (fa || fb) x y = true := by
  cases fa with
  | true => exact h
  | false =>
    have hxy : x = y := by simpa [same_iff] using h
    rw [hxy]; exact same_refl _ y

theorem same_or_right (fa : Bool) (h : same fb x y = true) :
    same (fa || fb) x y = true := by
  rw [Bool.or_comm]; exact same_or_left fa h

theorem same_length (h : same fold x y = true) :
    x.length = y.length := by
  cases fold with
  | false => rw [show x = y by simpa [same_iff] using h]
  | true =>
    have hmap : x.map toAsciiLowercase = y.map toAsciiLowercase := by simpa [same_iff] using h
    simpa using congrArg List.length hmap

theorem same_take (n : Nat) (h : same fold x y = true) :
    same fold (x.take n) (y.take n) = true := by
  cases fold with
  | false => rw [show x = y by simpa [same_iff] using h]; exact same_refl _ _
  | true =>
    have hmap : x.map toAsciiLowercase = y.map toAsciiLowercase := by simpa [same_iff] using h
    simp only [same_iff, if_true, List.map_take, hmap]

theorem same_append {x' y' : Bytes} (h : same fold x y = true) (h' : same fold x' y' = true) :
    same fold (x ++ x') (y ++ y') = true := by
  cases fold <;>
    simp only [same_iff, if_true, if_false, Bool.false_eq_true, List.map_append] at h h' ⊢ <;>
    rw [h, h']

theorem same_drop (n : Nat) (h : same fold x y = true) :
    same fold (x.drop n) (y.drop n) = true := by
  cases fold with
  | false => rw [show x = y by simpa [same_iff] using h]; exact same_refl _ _
  | true =>
    have hmap : x.map toAsciiLowercase = y.map toAsciiLowercase := by simpa [same_iff] using h
    simp only [same_iff, if_true, List.map_drop, hmap]

/-- Only the separator folds to the separator. -/
theorem same_slash {b : UInt8} (h : same fold [b] [47] = true) : b = 47 := by
  cases fold with
  | false => simpa [same_iff] using h
  | true =>
    have hfold : toAsciiLowercase b = 47 := by
      have hmap : toAsciiLowercase b = toAsciiLowercase 47 := by simpa [same_iff] using h
      rw [hmap]; rfl
    -- an upper-case letter folds into `a`..`z`, everything else to itself
    unfold toAsciiLowercase isAsciiUppercase at hfold
    grind

/-- Two strings that agree up to the weaker of two case rules have a common
    spelling: the one of the side that insists on its casing. -/
theorem exists_common_spelling (h : same (fa || fb) x y = true) :
    ∃ w, same fa w x = true ∧ same fb w y = true := by
  cases fa with
  | true => exact ⟨y, same_symm (by simpa using h), same_refl fb y⟩
  | false => exact ⟨x, same_refl false x, by simpa using h⟩

/-! ## What an atom stands for -/

/-- The paths an atom stands for under a case rule. -/
def Atom.Accepts (fold : Bool) : Atom → Bytes → Prop
  | .exact x, path => same fold path x = true
  | .Prefix x, path => ∃ head tail, path = head ++ tail ∧ same fold head x = true

theorem starts_iff {path operand : Bytes} :
    starts fold path operand = true ↔ (Atom.Prefix operand).Accepts fold path := by
  simp only [starts, Bool.and_eq_true, decide_eq_true_eq]
  constructor
  · rintro ⟨_, hsame⟩
    exact ⟨path.take operand.length, path.drop operand.length,
      (List.take_append_drop _ _).symm, hsame⟩
  · rintro ⟨head, tail, rfl, hsame⟩
    have hlen : head.length = operand.length := same_length hsame
    refine ⟨by rw [List.length_append]; omega, ?_⟩
    rw [← hlen, List.take_left]
    exact hsame

/-- The byte after a matched base is the separator exactly when the base with
    the separator is matched. A separator has no case. -/
theorem starts_slash_iff {path base : Bytes} :
    (starts fold path base = true ∧ path[base.length]? = some 47) ↔
      (Atom.Prefix (base ++ [47])).Accepts fold path := by
  rw [starts_iff]
  constructor
  · rintro ⟨⟨head, tail, rfl, hsame⟩, hget⟩
    rw [← same_length hsame, List.getElem?_append_right (le_refl _), Nat.sub_self] at hget
    cases tail with
    | nil => simp at hget
    | cons c tail =>
      have hc : c = 47 := by simpa using hget
      refine ⟨head ++ [c], tail, by simp, ?_⟩
      rw [hc]
      exact same_append hsame (same_refl fold [47])
  · rintro ⟨head, tail, rfl, hsame⟩
    obtain ⟨init, last, rfl⟩ : ∃ init last, head = init ++ [last] := by
      have hlen : head.length = base.length + 1 := by simpa using same_length hsame
      exact ⟨head.dropLast, head.getLast (by rintro rfl; simp at hlen),
        (List.dropLast_append_getLast _).symm⟩
    have hlen : init.length = base.length := by simpa using same_length hsame
    have hinit : same fold init base = true := by
      simpa [← hlen] using same_take init.length hsame
    have hlast : last = 47 := by
      have htail := same_drop init.length hsame
      rw [List.drop_left, hlen, List.drop_left] at htail
      exact same_slash htail
    refine ⟨⟨init, last :: tail, by simp, hinit⟩, ?_⟩
    simp [← hlen, hlast]

/-- A route accepts exactly the paths its atoms stand for, under its own case
    rule. -/
theorem pathMatches_iff (s : Scope) (path : Bytes) :
    pathMatches s.route path = true ↔ ∃ atom ∈ atoms s, atom.Accepts s.insensitive path := by
  have hoperand : s.route.pathPrefix = some s.operand := rfl
  have hmode : s.route.pathMatch = s.mode := rfl
  simp only [pathMatches, hoperand, hmode, Scope.route_pathCaseInsensitive]
  cases hm : s.mode with
  | Prefix => simp [atoms, hm, starts_iff]
  | exact => simp [atoms, hm, Atom.Accepts]
  | segmentPrefix =>
    by_cases hbase : trimEndMatches 47 s.operand = []
    · -- an empty base accepts everything
      simp only [atoms, hm, hbase, List.isEmpty_nil, Bool.true_or, if_true, List.mem_singleton,
        exists_eq_left, true_iff]
      exact ⟨[], path, rfl, same_refl _ _⟩
    · have hempty : (trimEndMatches 47 s.operand).isEmpty = false := by simpa using hbase
      simp only [atoms, hm, hempty, Bool.false_or, Bool.and_eq_true, Bool.or_eq_true, beq_iff_eq,
        Bool.false_eq_true, if_false, List.mem_cons, List.not_mem_nil, or_false,
        exists_eq_or_imp, exists_eq_left, ← starts_slash_iff]
      constructor
      · rintro ⟨hstarts, hlen | hslash⟩
        · left
          obtain ⟨head, tail, rfl, hsame⟩ := starts_iff.mp hstarts
          have htail : tail = [] := by
            have := same_length hsame
            rw [List.length_append] at hlen
            exact List.eq_nil_of_length_eq_zero (by omega)
          simpa [Atom.Accepts, htail] using hsame
        · exact Or.inr ⟨hstarts, hslash⟩
      · rintro (hexact | ⟨hstarts, hslash⟩)
        · refine ⟨starts_iff.mpr ⟨path, [], by simp, hexact⟩, Or.inl (same_length hexact)⟩
        · exact ⟨hstarts, Or.inr hslash⟩

/-! ## Atoms meet exactly when they share a path -/

/-- An exact atom and a prefix atom, on either side of the comparison. -/
theorem exact_prefix_iff :
    (y.length ≤ x.length ∧ same (fa || fb) (x.take y.length) y = true) ↔
      ∃ path, (Atom.exact x).Accepts fa path ∧ (Atom.Prefix y).Accepts fb path := by
  constructor
  · rintro ⟨_, hsame⟩
    obtain ⟨w, hwx, hwy⟩ := exists_common_spelling hsame
    refine ⟨w ++ x.drop y.length, ?_, w, x.drop y.length, rfl, hwy⟩
    have hfull := same_append hwx (same_refl fa (x.drop y.length))
    rwa [List.take_append_drop] at hfull
  · rintro ⟨path, hexact, head, tail, rfl, hhead⟩
    have hlen := same_length hexact
    have hhlen := same_length hhead
    rw [List.length_append] at hlen
    refine ⟨by omega, ?_⟩
    have hx : same (fa || fb) (x.take y.length) head = true := by
      have := same_symm (same_take y.length hexact)
      rw [← hhlen, List.take_left] at this
      rw [← hhlen]
      exact same_or_left fb this
    exact same_trans hx (same_or_right fa hhead)

/-- The comparison of two prefixes, from the side of the shorter one. -/
theorem exists_path_of_shorter (hsame : same (fa || fb) x (y.take x.length) = true) :
    ∃ path, (Atom.Prefix x).Accepts fa path ∧ (Atom.Prefix y).Accepts fb path := by
  obtain ⟨w, hwx, hwy⟩ := exists_common_spelling hsame
  refine ⟨w ++ y.drop x.length, ⟨w, _, rfl, hwx⟩, w ++ y.drop x.length, [], by simp, ?_⟩
  have hfull := same_append hwy (same_refl fb (y.drop x.length))
  rwa [List.take_append_drop] at hfull

theorem prefix_prefix_iff :
    same (fa || fb) (x.take (min x.length y.length)) (y.take (min x.length y.length)) = true ↔
      ∃ path, (Atom.Prefix x).Accepts fa path ∧ (Atom.Prefix y).Accepts fb path := by
  constructor
  · intro hsame
    rcases Nat.le_total x.length y.length with hle | hle
    · rw [min_eq_left hle, List.take_length] at hsame
      exact exists_path_of_shorter hsame
    · rw [min_eq_right hle, List.take_length, Bool.or_comm] at hsame
      obtain ⟨path, hy, hx⟩ := exists_path_of_shorter (same_symm hsame)
      exact ⟨path, hx, hy⟩
  · rintro ⟨path, ⟨hx, tx, rfl, hsx⟩, hy, ty, heq, hsy⟩
    -- both heads are prefixes of one path, so they agree where both reach
    have hcut : hx.take (min x.length y.length) = hy.take (min x.length y.length) := by
      have htake := congrArg (List.take (min x.length y.length)) heq
      rwa [List.take_append_of_le_length (by rw [same_length hsx]; exact min_le_left _ _),
        List.take_append_of_le_length (by rw [same_length hsy]; exact min_le_right _ _)] at htake
    have h1 := same_symm (same_take (min x.length y.length) (same_or_left fb hsx))
    have h2 := same_take (min x.length y.length) (same_or_right fa hsy)
    rw [hcut] at h1
    exact same_trans h1 h2

theorem meet_iff {left right : Atom} :
    meet (fa || fb) left right = true ↔
      ∃ path, left.Accepts fa path ∧ right.Accepts fb path := by
  cases left with
  | exact x =>
    cases right with
    | exact y =>
      constructor
      · exact exists_common_spelling
      · rintro ⟨path, hx, hy⟩
        exact same_trans (same_symm (same_or_left fb hx)) (same_or_right fa hy)
    | Prefix y =>
      simp only [meet, Bool.and_eq_true, decide_eq_true_eq]
      exact exact_prefix_iff
  | Prefix x =>
    cases right with
    | exact y =>
      simp only [meet, Bool.and_eq_true, decide_eq_true_eq]
      rw [Bool.or_comm, exact_prefix_iff]
      exact exists_congr fun _ => And.comm
    | Prefix y => exact prefix_prefix_iff

/-! ## Exactness -/

theorem scopesIntersect_iff (a b : Scope) :
    scopesIntersect a b = true ↔
      ∃ path, pathMatches a.route path = true ∧ pathMatches b.route path = true := by
  simp only [scopesIntersect, List.any_eq_true, meet_iff, pathMatches_iff]
  constructor
  · rintro ⟨left, hleft, right, hright, path, hl, hr⟩
    exact ⟨path, ⟨left, hleft, hl⟩, right, hright, hr⟩
  · rintro ⟨path, ⟨left, hleft, hl⟩, right, hright, hr⟩
    exact ⟨left, hleft, right, hright, path, hl, hr⟩

/-- **Exactness of the intersection test.** For all modes, operands and case
    rules the test answers whether one path is accepted by both routes, and so
    it does not depend on the order of its arguments. -/
theorem scopesIntersect_exact (a b : Scope) :
    (scopesIntersect a b = true ↔
      ∃ path : Bytes, pathMatches a.route path = true ∧ pathMatches b.route path = true) ∧
    scopesIntersect a b = scopesIntersect b a := by
  refine ⟨scopesIntersect_iff a b, Bool.eq_iff_iff.mpr ?_⟩
  rw [scopesIntersect_iff, scopesIntersect_iff]
  exact exists_congr fun _ => And.comm

/-- The scope of a route accepts what the route accepts: the callers of the test
    pass `route_scope`, which is the whole space for a route without a prefix. -/
theorem pathMatches_routeScope (r : HttpRoute) (path : Bytes) :
    pathMatches (routeScope r).route path = pathMatches r path := by
  cases hp : r.pathPrefix with
  | none =>
    have hall : pathMatches (routeScope r).route path = true := by
      rw [pathMatches_iff]
      refine ⟨.Prefix [], by simp [routeScope, hp, atoms], [], path, rfl, same_refl _ _⟩
    rw [hall]
    simp [pathMatches, hp]
  | some operand =>
    have hscope : routeScope r = ⟨r.pathMatch, operand, r.pathCaseInsensitive⟩ := by
      simp [routeScope, hp]
    simp only [pathMatches, hscope, Scope.route_pathCaseInsensitive, hp]
    rfl

/-- Two routes of a configuration can both be selected for some path exactly
    when their scopes intersect. -/
theorem scopesIntersect_routeScope_iff (r r' : HttpRoute) :
    scopesIntersect (routeScope r) (routeScope r') = true ↔
      ∃ path, pathMatches r path = true ∧ pathMatches r' path = true := by
  rw [scopesIntersect_iff]
  simp only [pathMatches_routeScope]

end ResourceGuard
