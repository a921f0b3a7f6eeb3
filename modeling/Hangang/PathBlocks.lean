import Hangang.HostMatch
import Hangang.ResourceGuard.PathScope
import Hangang.ResourcePolicy.CanonicalPath

/-! # Blocked Paths

    `path_blocks`: explicit host and path namespaces that are refused before any
    routing. `check` answers 404 for a path in a blocked namespace and 400 for a
    path that has no canonical form; everything else is let through.

    The claim a block makes is about the origin, not about the gateway: a path
    that is let through must not turn into a blocked one when the origin reads
    it. By `reading_decodes` every reading has the same canonical form as the
    request, and `mem_namespace_of_decodes` shows that a namespace is entered by
    a string only if its canonical form is in it. -/

open Bytes ResourceGuard ResourcePolicy

namespace PathBlocks

structure Rule where
  path : Bytes
  hosts : List Bytes
  deriving DecidableEq, Repr

/-- The ways `validate` refuses a rule list. -/
inductive RuleError where
  /-- "settings.path_blocks allows at most 128 rules" -/
  | rules
  /-- The path has no canonical form. -/
  | path (e : PathError)
  /-- "blocked path must be canonical, without percent escapes" -/
  | notCanonical
  /-- "blocked path must not end in / (except root)" -/
  | trailingSlash
  /-- "blocked path allows at most 16 hosts" -/
  | hosts
  /-- A host pattern is refused with this message. -/
  | host (message : String)
  /-- "settings.path_blocks exceeds 32 KiB" -/
  | text
  deriving DecidableEq, Repr

/-- The host patterns of one rule; the result is the text length so far. -/
def validateHosts : Nat → List Bytes → Except RuleError Nat
  | text, [] => .ok text
  | text, host :: hosts =>
    match HostMatch.validatePattern host with
    | .error message => .error (.host message)
    | .ok () => validateHosts (text + host.length) hosts

/-- The loop of `path_blocks::validate`. -/
def validateRules : Nat → List Rule → Except RuleError Nat
  | text, [] => .ok text
  | text, rule :: rules =>
    match canonicalPath rule.path with
    | .error e => .error (.path e)
    | .ok canonical =>
      if canonical != rule.path then .error .notCanonical
      else if !(rule.path == [47] || rule.path.getLast? != some 47) then .error .trailingSlash
      else if rule.hosts.length > 16 then .error .hosts
      else match validateHosts (text + rule.path.length) rule.hosts with
        | .error e => .error e
        | .ok text => validateRules text rules

/-- `path_blocks::validate`. -/
def validate (rules : List Rule) : Except RuleError Unit :=
  if rules.length > 128 then .error .rules
  else match validateRules 0 rules with
    | .error e => .error e
    | .ok text => if text ≤ 32 * 1024 then .ok () else .error .text

section check

variable (authorityHost : Bytes → Option Bytes)

/-- The hosts a request presents: its `Host`, the forwarded host and the
    authority of its target. -/
def candidates (request : Request) (forwardedHost : Option Bytes) : List Bytes :=
  [requestHost authorityHost request, forwardedHost.bind authorityHost, request.uriHost].filterMap id

/-- The `scoped` closure of `check`, also `scope_host_matches`. -/
def scopeHostMatches (rule : Rule) (request : Request) (forwardedHost : Option Bytes) : Bool :=
  rule.hosts.isEmpty ||
    rule.hosts.any fun pattern =>
      (candidates authorityHost request forwardedHost).any fun host =>
        HostMatch.patternMatches pattern (trimEndMatches 46 host)

/-- `path.strip_prefix(rule).is_some_and(|tail| tail.starts_with('/'))`. -/
def isSlashDescendant (rule path : Bytes) : Bool :=
  match stripPrefix rule path with
  | some tail => tail.head? == some 47
  | none => false

/-- The namespace test of `check`. -/
def blocks (rule : Rule) (path : Bytes) : Bool :=
  rule.path == [47] || path == rule.path || isSlashDescendant rule.path path

/-- `path_blocks::check`; the error is the HTTP status. -/
def check (rules : List Rule) (request : Request) (forwardedHost : Option Bytes) :
    Except Nat Unit :=
  if rules.isEmpty then .ok ()
  else
    let inScope := rules.filter fun rule => scopeHostMatches authorityHost rule request forwardedHost
    if inScope.isEmpty then .ok ()
    else match canonicalPath request.path with
      | .error _ => .error 400
      | .ok path => if inScope.any fun rule => blocks rule path then .error 404 else .ok ()

/-- `path_blocks::selector_matches`. -/
def selectorMatches (scope : Rule) (request : Request) (forwardedHost : Option Bytes)
    (includeSubpaths : Bool) : Except Nat Bool :=
  if !scopeHostMatches authorityHost scope request forwardedHost then .ok false
  else match canonicalPath request.path with
    | .error _ => .error 400
    | .ok path =>
      .ok (path == scope.path ||
        (scope.path != [47] && path.getLast? == some 47 && path.dropLast == scope.path) ||
        (includeSubpaths && (scope.path == [47] || isSlashDescendant scope.path path)))

end check

/-! ## Namespaces -/

/-- `path` is `rule` or below it, seen as slash-separated paths. The root is
    written with its slash, every other rule without. -/
def InNamespace (rule path : Bytes) : Prop :=
  path = rule ∨ trimEndMatches 47 rule ++ [47] <+: path

theorem isSlashDescendant_iff {rule path : Bytes} :
    isSlashDescendant rule path = true ↔ rule ++ [47] <+: path := by
  unfold isSlashDescendant
  constructor
  · intro h
    split at h
    · next tail htail =>
      rw [stripPrefix_eq_some] at htail
      rw [beq_iff_eq, List.head?_eq_some_iff] at h
      obtain ⟨rest, rfl⟩ := h
      exact ⟨rest, by simp [htail]⟩
    · cases h
  · rintro ⟨rest, rfl⟩
    have hstrip : stripPrefix rule (rule ++ [47] ++ rest) = some (47 :: rest) := by
      rw [stripPrefix_eq_some]
      simp
    rw [hstrip]
    rfl

/-- What validation promises of one rule. -/
structure Valid (rule : Rule) : Prop where
  canonical : canonicalPath rule.path = .ok rule.path
  trimmed : rule.path = [47] ∨ rule.path.getLast? ≠ some 47

theorem valid_of_validateRules {rules : List Rule} {text text' : Nat}
    (h : validateRules text rules = .ok text') : ∀ rule ∈ rules, Valid rule := by
  induction rules generalizing text with
  | nil => simp
  | cons rule rules ih =>
    rw [validateRules] at h
    split at h
    · cases h
    · next canonical hcanon =>
      split at h
      · cases h
      · next heq =>
        split at h
        · cases h
        · next htrim =>
          split at h
          · cases h
          · split at h
            · cases h
            · have hpath : canonical = rule.path := by simpa using heq
              intro r hr
              rcases List.mem_cons.mp hr with rfl | hr
              · refine ⟨hpath ▸ hcanon, ?_⟩
                simpa [or_iff_not_imp_left] using htrim
              · exact ih h r hr

theorem valid_of_validate {rules : List Rule} (h : validate rules = .ok ()) :
    ∀ rule ∈ rules, Valid rule := by
  unfold validate at h
  split at h
  · cases h
  · split at h
    · cases h
    · next text htext => exact valid_of_validateRules htext

theorem trimEndMatches_of_getLast {b : UInt8} {x : Bytes} (h : x.getLast? ≠ some b) :
    trimEndMatches b x = x := by
  refine List.rdropWhile_eq_self_iff.mpr fun hne hlast => h ?_
  rw [List.getLast?_eq_some_getLast hne, beq_iff_eq.mp hlast]

/-- On the path of a valid rule the test of `check` is the namespace. -/
theorem blocks_iff {rule : Rule} (hvalid : Valid rule) {path : Bytes}
    (hpath : path.head? = some 47) :
    blocks rule path = true ↔ InNamespace rule.path path := by
  unfold blocks InNamespace
  rw [Bool.or_eq_true, Bool.or_eq_true, beq_iff_eq, beq_iff_eq, isSlashDescendant_iff]
  rcases hvalid.trimmed with hroot | htrim
  · -- everything is below the root
    obtain ⟨rest, rfl⟩ := List.head?_eq_some_iff.mp hpath
    have hbelow : trimEndMatches 47 rule.path ++ [47] <+: 47 :: rest := by
      rw [hroot]
      exact ⟨rest, rfl⟩
    exact iff_of_true (Or.inl (Or.inl hroot)) (Or.inr hbelow)
  · rw [trimEndMatches_of_getLast htrim]
    have hne : rule.path ≠ [47] := by
      rintro heq
      rw [heq] at htrim
      exact htrim rfl
    simp [hne]

/-- A string enters a rule's namespace only if its canonical form does: the rule
    has no escapes, so decoding copies it. -/
theorem mem_namespace_of_decodes {rule : Rule} (hvalid : Valid rule) {q d : Bytes}
    (hdec : Decodes q d) (hq : InNamespace rule.path q) : InNamespace rule.path d := by
  have hplain : 37 ∉ rule.path := by
    intro hmem
    have := (canonicalPath_eq_ok hvalid.canonical).1.not_forbidden 37 hmem
    exact absurd this (by decide)
  rcases hq with rfl | ⟨rest, rfl⟩
  · have hself := (canonicalPath_eq_ok hvalid.canonical).1
    rw [decodeOnce_eq_ok.symm] at hself hdec
    rw [hself] at hdec
    cases hdec
    exact Or.inl rfl
  · right
    have hplain' : 37 ∉ trimEndMatches 47 rule.path ++ [47] := by
      intro hmem
      rcases List.mem_append.mp hmem with hmem | hmem
      · exact hplain ((List.rdropWhile_prefix _ _).subset hmem)
      · exact absurd hmem (by decide)
    obtain ⟨d', -, rfl⟩ := hdec.append_of_plain hplain'
    exact ⟨d', rfl⟩

/-! ## Non-evasion -/

section check

variable {authorityHost : Bytes → Option Bytes} {rules : List Rule} {request : Request}
  {forwardedHost : Option Bytes}

theorem canonical_of_check_ok (h : check authorityHost rules request forwardedHost = .ok ())
    {rule : Rule} (hmem : rule ∈ rules)
    (hscope : scopeHostMatches authorityHost rule request forwardedHost = true) :
    ∃ d, canonicalPath request.path = .ok d ∧ blocks rule d = false := by
  have hfilter : rule ∈ rules.filter fun rule =>
      scopeHostMatches authorityHost rule request forwardedHost :=
    List.mem_filter.mpr ⟨hmem, hscope⟩
  unfold check at h
  split at h
  · next hempty => simp [List.isEmpty_iff.mp hempty] at hmem
  · dsimp only at h
    split at h
    · next hempty => simp [List.isEmpty_iff.mp hempty] at hfilter
    · split at h
      · cases h
      · next d hcanon =>
        split at h
        · cases h
        · next hany =>
          rw [Bool.not_eq_true, List.any_eq_false] at hany
          exact ⟨d, hcanon, by simpa using hany rule hfilter⟩

theorem blocked_of_check_error
    (h : check authorityHost rules request forwardedHost = .error 404) :
    ∃ d, canonicalPath request.path = .ok d ∧ ∃ rule ∈ rules,
      scopeHostMatches authorityHost rule request forwardedHost = true ∧ blocks rule d = true := by
  unfold check at h
  split at h
  · cases h
  · dsimp only at h
    split at h
    · cases h
    · split at h
      · cases h
      · next d hcanon =>
        split at h
        · next hany =>
          obtain ⟨rule, hfilter, hblock⟩ := List.any_eq_true.mp hany
          obtain ⟨hmem, hscope⟩ := List.mem_filter.mp hfilter
          exact ⟨d, hcanon, rule, hmem, hscope, hblock⟩
        · cases h

end check

/-- **Blocked paths are not evaded.** For every validated rule list: a request
    that `check` lets through has no reading, whatever the origin does in
    whatever order, inside a blocked namespace of a rule in scope; and a request
    it refuses with 404 is, decoded, inside such a namespace. -/
theorem check_not_evaded (authorityHost : Bytes → Option Bytes) (rules : List Rule)
    (request : Request) (forwardedHost : Option Bytes) (hvalid : validate rules = .ok ()) :
    (check authorityHost rules request forwardedHost = .ok () →
      ∀ q, Reading request.path q → ∀ rule ∈ rules,
        scopeHostMatches authorityHost rule request forwardedHost = true →
          ¬ InNamespace rule.path q) ∧
    (check authorityHost rules request forwardedHost = .error 404 →
      ∃ rule ∈ rules, scopeHostMatches authorityHost rule request forwardedHost = true ∧
        InNamespace rule.path (percentDecode request.path)) := by
  have hrules := valid_of_validate hvalid
  constructor
  · intro hcheck q hreading rule hmem hscope hq
    obtain ⟨d, hcanon, hpass⟩ := canonical_of_check_ok hcheck hmem hscope
    obtain ⟨hdec, hslash, -⟩ := canonicalPath_eq_ok hcanon
    have hd := mem_namespace_of_decodes (hrules rule hmem) (reading_decodes hcanon hreading) hq
    rw [← blocks_iff (hrules rule hmem) (hdec.head_slash.mp hslash)] at hd
    exact absurd hd (by simp [hpass])
  · intro hcheck
    obtain ⟨d, hcanon, rule, hmem, hscope, hblock⟩ := blocked_of_check_error hcheck
    obtain ⟨hdec, hslash, -⟩ := canonicalPath_eq_ok hcanon
    refine ⟨rule, hmem, hscope, ?_⟩
    rw [hdec.percentDecode_eq, ← blocks_iff (hrules rule hmem) (hdec.head_slash.mp hslash)]
    exact hblock

/-- A rule list with one path and one host passes validation, a request for its
    sibling is let through and one below it is not. -/
theorem check_not_evaded_private :
    validate [⟨ascii "/private", [ascii "app.example"]⟩] = .ok () ∧
    check some [⟨ascii "/private", [ascii "app.example"]⟩]
      ⟨some (ascii "app.example"), none, ascii "/privateer"⟩ none = .ok () ∧
    check some [⟨ascii "/private", [ascii "app.example"]⟩]
      ⟨some (ascii "app.example"), none, ascii "/%70rivate/x"⟩ none = .error 404 ∧
    (∀ q, Reading (ascii "/privateer") q → ¬ InNamespace (ascii "/private") q) := by
  have hvalid : validate [⟨ascii "/private", [ascii "app.example"]⟩] = .ok () := by decide +kernel
  have hpass : check some [⟨ascii "/private", [ascii "app.example"]⟩]
      ⟨some (ascii "app.example"), none, ascii "/privateer"⟩ none = .ok () := by decide +kernel
  refine ⟨hvalid, hpass, by decide +kernel, fun q hq => ?_⟩
  exact (check_not_evaded some _ _ none hvalid).1 hpass q hq _ (List.mem_singleton.mpr rfl)
    (by decide +kernel)

end PathBlocks
