import Hangang.Framework.Except
import Hangang.Framework.SwapRemove
import Hangang.RequestBlocks.Rules
import Mathlib.Data.Multiset.Defs

/-! # Request Blocks: the Policy Fence

    At ingress the rules whose selectors match a request are kept with it. Later the fence
    compares them with those of the rules that are then in force, on a request that is made
    again from what was kept. -/

open Bytes

namespace RequestBlocks

/-- The target and the `Host` fields of a request. -/
structure Ingress where
  uriHost : Option Bytes
  path : Bytes
  hosts : List Bytes
  deriving DecidableEq, Repr

/-- What a selector reads: of the `Host` fields the first. -/
def Ingress.view (request : Ingress) : ResourceGuard.Request :=
  ⟨request.hosts.head?, request.uriHost, request.path⟩

/-- The part of a `ScopeProof` that the fence reads. -/
structure ScopeProof where
  indices : List Nat
  uriHost : Option Bytes
  path : Bytes
  host : Option Bytes
  forwarded : Option Bytes
  policies : List Rule
  deriving DecidableEq, Repr

section

variable (authorityHost : Bytes → Option Bytes)

/-- The indices of the rules whose selectors match, in the loop of `check`. -/
def scopeIndices (view : ResourceGuard.Request) (forwarded : Option Bytes) :
    Nat → List Compiled → Except Nat (List Nat)
  | _, [] => .ok []
  | index, compiled :: rules => do
    let selected ← compiled.rule.selects authorityHost view forwarded
    let indices ← scopeIndices view forwarded (index + 1) rules
    return if selected then index :: indices else indices

/-- The scope that `check` keeps with a request that has none yet. -/
def ingressScope (rules : List Compiled) (request : Ingress) (forwarded : Option Bytes) :
    Except Nat ScopeProof := do
  let indices ← scopeIndices authorityHost request.view forwarded 0 rules
  return {
    indices
    uriHost := request.uriHost
    path := request.path
    host := request.hosts.head?
    forwarded
    policies := indices.filterMap fun index => (rules[index]?).map (·.rule) }

/-- The request that the fence makes again. -/
def ScopeProof.request (proof : ScopeProof) : Ingress :=
  ⟨proof.uriHost, proof.path, proof.host.toList⟩

/-- The loop of `PolicyFence::current`. -/
def currentLoop (view : ResourceGuard.Request) (forwarded : Option Bytes)
    (remaining : List Rule) :
    List Compiled → Bool
  | [] => remaining.isEmpty
  | compiled :: rules =>
    match compiled.rule.selects authorityHost view forwarded with
    | .ok false => currentLoop view forwarded remaining rules
    | .ok true =>
      match remaining.findIdx? (· = compiled.rule) with
      | none => false
      | some index => currentLoop view forwarded (remaining.swapRemove index) rules
    | .error _ => false

/-- `PolicyFence::current`. -/
def ScopeProof.current (proof : ScopeProof) (rules : List Compiled) : Bool :=
  currentLoop authorityHost proof.request.view proof.forwarded proof.policies rules

/-! ## What the fence compares -/

/-- The rules whose selectors match a request. -/
def matching (view : ResourceGuard.Request) (forwarded : Option Bytes) (rules : List Compiled) :
    List Rule :=
  (rules.map (·.rule)).filter fun rule =>
    match rule.selects authorityHost view forwarded with
    | .ok selected => selected
    | .error _ => false

/-- Every selector can be evaluated. -/
def Evaluable (view : ResourceGuard.Request) (forwarded : Option Bytes) (rules : List Compiled) :
    Prop :=
  ∀ compiled ∈ rules, ∃ selected,
    compiled.rule.selects authorityHost view forwarded = .ok selected

variable {authorityHost} {compiled : Compiled} {forwarded : Option Bytes}

theorem matching_cons_of_true {view : ResourceGuard.Request}
    (h : compiled.rule.selects authorityHost view forwarded = .ok true) (rules : List Compiled) :
    matching authorityHost view forwarded (compiled :: rules) =
      compiled.rule :: matching authorityHost view forwarded rules := by
  unfold matching
  rw [List.map_cons, List.filter_cons, h]
  rfl

theorem matching_cons_of_false {view : ResourceGuard.Request}
    (h : compiled.rule.selects authorityHost view forwarded = .ok false) (rules : List Compiled) :
    matching authorityHost view forwarded (compiled :: rules) =
      matching authorityHost view forwarded rules := by
  unfold matching
  rw [List.map_cons, List.filter_cons, h]
  rfl

theorem evaluable_cons {view : ResourceGuard.Request} {rules : List Compiled} :
    Evaluable authorityHost view forwarded (compiled :: rules) ↔
      (∃ selected, compiled.rule.selects authorityHost view forwarded = .ok selected) ∧
        Evaluable authorityHost view forwarded rules := by
  unfold Evaluable
  rw [List.forall_mem_cons]

/-- **The loop** strikes the matching rules out of what is left. -/
theorem currentLoop_eq_true_iff {view : ResourceGuard.Request} {rules : List Compiled}
    {remaining : List Rule} :
    currentLoop authorityHost view forwarded remaining rules = true ↔
      Evaluable authorityHost view forwarded rules ∧
        remaining.consume (matching authorityHost view forwarded rules) = true := by
  -- on the rules; what is left to be struck out changes along the way
  induction rules generalizing remaining with
  | nil =>
    rw [currentLoop]
    constructor
    · intro h
      exact ⟨fun _ hmem => absurd hmem List.not_mem_nil, h⟩
    · intro h
      exact h.2
  | cons compiled rules ih =>
    rw [currentLoop, evaluable_cons]
    cases hselects : compiled.rule.selects authorityHost view forwarded with
    -- a rule that cannot be evaluated ends the loop
    | error e =>
      constructor
      · intro h
        cases h
      · rintro ⟨⟨⟨_, hok⟩, -⟩, -⟩
        cases hok
    | ok selected =>
      cases selected with
      | false =>
        rw [matching_cons_of_false hselects]
        dsimp only
        rw [ih]
        constructor
        · rintro ⟨heval, hconsume⟩
          exact ⟨⟨⟨false, rfl⟩, heval⟩, hconsume⟩
        · rintro ⟨⟨-, heval⟩, hconsume⟩
          exact ⟨heval, hconsume⟩
      | true =>
        rw [matching_cons_of_true hselects, List.consume]
        dsimp only
        -- the rule is struck out once, or was not among the old ones
        cases hfind : remaining.findIdx? (· = compiled.rule) with
        | none =>
          constructor
          · intro h
            cases h
          · rintro ⟨-, h⟩
            cases h
        | some index =>
          dsimp only
          rw [ih]
          constructor
          · rintro ⟨heval, hconsume⟩
            exact ⟨⟨⟨true, rfl⟩, heval⟩, hconsume⟩
          · rintro ⟨⟨-, heval⟩, hconsume⟩
            exact ⟨heval, hconsume⟩

/-- The indices kept at ingress are those of the matching rules. -/
theorem scopeIndices_eq_ok {view : ResourceGuard.Request} {forwarded : Option Bytes}
    {rules : List Compiled} {before : List Compiled} {indices : List Nat}
    (h : scopeIndices authorityHost view forwarded before.length rules = .ok indices) :
    (indices.filterMap fun index => ((before ++ rules)[index]?).map (·.rule)) =
      matching authorityHost view forwarded rules := by
  induction rules generalizing before indices with
  | nil =>
    cases h
    rfl
  | cons compiled rules ih =>
    rw [scopeIndices, Except.bind_eq_ok] at h
    obtain ⟨selected, hselects, h⟩ := h
    rw [Except.bind_eq_ok] at h
    obtain ⟨rest, hrest, h⟩ := h
    have hrest' : scopeIndices authorityHost view forwarded (before ++ [compiled]).length rules =
        .ok rest := by
      rw [List.length_append]
      exact hrest
    have hrules := ih hrest'
    rw [List.append_assoc, List.singleton_append] at hrules
    have hhead : (before ++ compiled :: rules)[before.length]? = some compiled := by simp
    cases selected with
    | true =>
      cases h
      rw [if_pos rfl, List.filterMap_cons, hhead, matching_cons_of_true hselects, ← hrules]
      rfl
    | false =>
      cases h
      rw [if_neg Bool.false_ne_true, matching_cons_of_false hselects, hrules]

/-- The request that is made again selects the same rules. -/
theorem view_request {request : Ingress} {proof : ScopeProof}
    (hhost : proof.host = request.hosts.head?) (huri : proof.uriHost = request.uriHost)
    (hpath : proof.path = request.path) : proof.request.view = request.view := by
  unfold ScopeProof.request Ingress.view
  rw [hhost, huri, hpath]
  cases request.hosts with
  | nil => rfl
  | cons host hosts => rfl

/-- A rule that does not match is not looked for. -/
theorem matching_insert {view : ResourceGuard.Request}
    (h : compiled.rule.selects authorityHost view forwarded = .ok false)
    (before after : List Compiled) :
    matching authorityHost view forwarded (before ++ compiled :: after) =
      matching authorityHost view forwarded (before ++ after) := by
  have happend : ∀ xs ys, matching authorityHost view forwarded (xs ++ ys) =
      matching authorityHost view forwarded xs ++ matching authorityHost view forwarded ys := by
    intro xs ys
    unfold matching
    rw [List.map_append, List.filter_append]
  rw [happend, happend, matching_cons_of_false h]

theorem evaluable_insert {view : ResourceGuard.Request}
    (h : compiled.rule.selects authorityHost view forwarded = .ok false)
    (before after : List Compiled) :
    Evaluable authorityHost view forwarded (before ++ compiled :: after) ↔
      Evaluable authorityHost view forwarded (before ++ after) := by
  unfold Evaluable
  simp only [List.forall_mem_append, List.forall_mem_cons]
  constructor
  · rintro ⟨hbefore, -, hafter⟩
    exact ⟨hbefore, hafter⟩
  · rintro ⟨hbefore, hafter⟩
    exact ⟨hbefore, ⟨false, h⟩, hafter⟩

/-- **The fence decides equality of multisets.** For the scope that was kept of a request at
    ingress, the fence reports current exactly if every selector of the later rules can be
    evaluated on that request and the later rules that match it are, as a multiset, the rules
    that matched at ingress. Rules that do not match make no difference. -/
theorem policy_fence_equivalence {ingressRules : List Compiled} {request : Ingress}
    {forwarded : Option Bytes} {proof : ScopeProof}
    (hscope : ingressScope authorityHost ingressRules request forwarded = .ok proof)
    (rules : List Compiled) :
    proof.policies = matching authorityHost request.view forwarded ingressRules ∧
    (proof.current authorityHost rules = true ↔
      Evaluable authorityHost request.view forwarded rules ∧
        (matching authorityHost request.view forwarded rules : Multiset Rule) = proof.policies) ∧
    ∀ compiled, compiled.rule.selects authorityHost request.view forwarded = .ok false →
      ∀ before after, rules = before ++ after →
        proof.current authorityHost (before ++ compiled :: after) =
          proof.current authorityHost rules := by
  obtain ⟨indices, hindices, h⟩ := Except.bind_eq_ok.mp hscope
  have hpolicies := @scopeIndices_eq_ok authorityHost request.view forwarded ingressRules [] indices
    hindices
  -- the fence looks at the same request as the ingress did
  have hview : proof.request.view = request.view ∧ proof.forwarded = forwarded := by
    cases h
    exact ⟨view_request rfl rfl rfl, rfl⟩
  have hcurrent : ∀ rules, proof.current authorityHost rules = true ↔
      Evaluable authorityHost request.view forwarded rules ∧
        (matching authorityHost request.view forwarded rules : Multiset Rule) =
          proof.policies := by
    intro rules
    unfold ScopeProof.current
    rw [hview.1, hview.2, currentLoop_eq_true_iff, List.consume_eq_true_iff, Multiset.coe_eq_coe]
  refine ⟨?_, hcurrent rules, fun compiled hselects before after hrules => ?_⟩
  · cases h
    exact hpolicies
  · rw [Bool.eq_iff_iff, hcurrent, hcurrent, matching_insert hselects, evaluable_insert hselects,
      hrules]

end

def loginRule : Rule where
  path := ascii "/login"
  params := [{ name := ascii "mode" }]

def loginPostRule : Rule := { loginRule with methods := [ascii "POST"] }

def adminRule : Rule := { loginRule with path := ascii "/admin" }

def loginRequest : Ingress := ⟨none, ascii "/login", [ascii "a.test"]⟩

/-- Two rules for one path. Both in the other order are the same policies, also with a rule for
    another path between them. -/
theorem policy_fence_equivalence_login :
    ∃ proof, ingressScope some [⟨loginRule, [none]⟩, ⟨loginPostRule, [none]⟩] loginRequest none =
        .ok proof ∧ proof.policies = [loginRule, loginPostRule] ∧
      proof.current some [⟨loginPostRule, [none]⟩, ⟨loginRule, [none]⟩] = true ∧
      proof.current some [⟨loginPostRule, [none]⟩, ⟨adminRule, [none]⟩, ⟨loginRule, [none]⟩] =
        true := by
  have hok : (ingressScope some [⟨loginRule, [none]⟩, ⟨loginPostRule, [none]⟩] loginRequest
      none).isOk = true := by
    decide +kernel
  have hselects : loginRule.selects some loginRequest.view none = .ok true ∧
      loginPostRule.selects some loginRequest.view none = .ok true ∧
      adminRule.selects some loginRequest.view none = .ok false := by
    decide +kernel
  cases hproof : ingressScope some [⟨loginRule, [none]⟩, ⟨loginPostRule, [none]⟩] loginRequest
      none with
  | error e =>
    rw [hproof] at hok
    cases hok
  | ok proof =>
    obtain ⟨hpolicies, hcurrent, hinsert⟩ := policy_fence_equivalence hproof
      [⟨loginPostRule, [none]⟩, ⟨loginRule, [none]⟩]
    replace hpolicies : proof.policies = [loginRule, loginPostRule] := by
      rw [hpolicies]
      decide +kernel
    replace hcurrent : proof.current some [⟨loginPostRule, [none]⟩, ⟨loginRule, [none]⟩] =
        true := by
      refine hcurrent.mpr ⟨?_, ?_⟩
      · intro compiled hcompiled
        rcases List.mem_pair.mp hcompiled with rfl | rfl
        · exact ⟨true, hselects.2.1⟩
        · exact ⟨true, hselects.1⟩
      · rw [hpolicies]
        decide +kernel
    refine ⟨proof, rfl, hpolicies, hcurrent, ?_⟩
    rw [← hcurrent]
    exact hinsert ⟨adminRule, [none]⟩ hselects.2.2 [⟨loginPostRule, [none]⟩] _ rfl

end RequestBlocks
