import Hangang.RequestBlocks.NestedJson
import Hangang.RequestBlocks.Rules

/-! # Request Blocks: Decisions

    The selected rules are evaluated twice: on the parameters of the query, before the body
    is read, and on all of them. A denial of the first evaluation is one that the second
    does not take back. -/

open Bytes Except

namespace RequestBlocks

/-- The inspected parameters by name. -/
abbrev Params : Type := List (Bytes × Bytes)

def pathValue (value : Bytes) : Except Nat Bytes :=
  if value.contains 37 || value.contains 63 || value.contains 35 then .error 400
  else
    (ResourcePolicy.canonicalPath (if value.head? = some 47 then value else 47 :: value)).mapError
      fun _ => 400

/-- A value as a condition compares it, in lower case where the condition says so. -/
def Condition.caseFolded (condition : Condition) (value : Bytes) : Bytes :=
  if condition.caseInsensitive then value.map toAsciiLowercase else value

/-- Whether a prepared value is one that the condition lists. -/
def Condition.expects (condition : Condition) (value expected : Bytes) : Bool :=
  -- a compiled condition lists only values that `pathValue` accepts
  let expected := condition.caseFolded
    (if condition.matcher = .pathPrefix then (pathValue expected).toOption.getD expected
      else expected)
  match condition.matcher with
  | .exact => value == expected
  | .literalPrefix => expected.isPrefixOf value
  | .segmentPrefix | .pathPrefix =>
    value == trimEndMatches 47 expected ||
      (stripPrefix (trimEndMatches 47 expected) value).any fun tail => tail.head? == some 47

def compare (condition : Condition) (pattern : Option (Bytes → Bytes)) (value : Bytes) :
    Except Nat Bool :=
  if condition.values.isEmpty then .ok true
  else do
    let stripped := pattern.elim value fun strip => strip value
    let path ← if condition.matcher = .pathPrefix then pathValue stripped else .ok stripped
    .ok (condition.values.any (condition.expects (condition.caseFolded path)))

-- The parser of nested documents.
variable (read : Bytes → Source × Bool)

/-- The values that a condition compares: those of a nested field, or the parameter's own. -/
def extract (condition : Condition) (value : Bytes) : Except Nat (List Bytes) :=
  match condition.jsonField with
  | some field => nestedValues read field (some condition.name) value
  | none => .ok [value]

def validateParameters (compiled : List Compiled) (params : Params) : Except Nat Unit :=
  compiled.forM fun runtime => runtime.rule.params.forM fun condition =>
    match params.lookup condition.name with
    | some value => do
      let extracted ← extract read condition value
      ensure (extracted.any hasControl = false) 400
    | none => .ok ()

/-- Whether a parameter's value satisfies a condition. -/
def satisfies (condition : Condition) (pattern : Option (Bytes → Bytes)) (value : Bytes) :
    Except Nat Bool := do
  let extracted ← extract read condition value
  let outcomes ← extracted.mapM (compare condition pattern)
  .ok (if condition.negate then extracted.isEmpty || outcomes.any not else outcomes.any id)

/-- Whether all conditions of a rule hold. Until inspection is complete an absent parameter may
    still come, so neither a default nor a negation counts for it. -/
def conditionsMatch (params : Params) (complete : Bool) :
    List (Condition × Option (Bytes → Bytes)) → Except Nat Bool
  | [] => .ok true
  | (condition, pattern) :: rest =>
    match (params.lookup condition.name).or (if complete then condition.defaultValue else none) with
    | none => if condition.negate && complete then conditionsMatch params complete rest else .ok false
    | some value => do
      if ← satisfies read condition pattern value then conditionsMatch params complete rest
      else .ok false

def anyRuleMatches (params : Params) (complete : Bool) : List Compiled → Except Nat Bool
  | [] => .ok false
  | runtime :: rest => do
    if ← conditionsMatch read params complete (runtime.rule.params.zip runtime.patterns) then
      .ok true
    else anyRuleMatches params complete rest

def blocked (compiled : List Compiled) (params : Params) (complete : Bool) : Except Nat Bool := do
  validateParameters read compiled params
  anyRuleMatches read params complete compiled

/-! ## Early denials -/

/-- Every parameter keeps its value. -/
def Extends (params params' : Params) : Prop :=
  ∀ name value, params.lookup name = some value → params'.lookup name = some value

variable {read}

/-- Conditions that all match before the body is read match after it: each of them read a value
    that was there. -/
theorem conditionsMatch_extends {params params' : Params} (hextends : Extends params params')
    {conditions : List (Condition × Option (Bytes → Bytes))}
    (h : conditionsMatch read params false conditions = .ok true) :
    conditionsMatch read params' true conditions = .ok true := by
  induction conditions with
  | nil => rfl
  | cons first rest ih =>
    obtain ⟨condition, pattern⟩ := first
    unfold conditionsMatch at h ⊢
    cases hvalue : params.lookup condition.name with
    | none =>
      rw [hvalue] at h
      simp at h
    | some value =>
      rw [hvalue] at h
      rw [hextends _ _ hvalue]
      obtain ⟨satisfied, hsatisfied, h⟩ := bind_eq_ok.mp h
      refine bind_eq_ok.mpr ⟨satisfied, hsatisfied, ?_⟩
      cases satisfied with
      | false => cases h
      | true => exact ih h

theorem anyRuleMatches_extends {params params' : Params} (hextends : Extends params params')
    {compiled : List Compiled} (h : anyRuleMatches read params false compiled = .ok true) :
    anyRuleMatches read params' true compiled ≠ .ok false := by
  induction compiled with
  | nil => cases h
  | cons runtime rest ih =>
    intro hallowed
    obtain ⟨early, hearly, h⟩ := bind_eq_ok.mp h
    obtain ⟨late, hlate, hallowed⟩ := bind_eq_ok.mp hallowed
    cases late with
    | true => cases hallowed
    | false =>
      cases early with
      | true =>
        rw [conditionsMatch_extends hextends hearly] at hlate
        cases hlate
      | false => exact ih h hallowed

/-- **Early denial is sound.** Rules that block on some parameters before the body is inspected
    do not allow any parameters that extend them: they block or refuse the request. -/
theorem early_denial_sound {compiled : List Compiled} {params params' : Params}
    (hextends : Extends params params') (h : blocked read compiled params false = .ok true) :
    blocked read compiled params' true = .ok true ∨
      ∃ status, blocked read compiled params' true = .error status := by
  obtain ⟨_, _, h⟩ := bind_eq_ok.mp h
  cases hlate : blocked read compiled params' true with
  | error status => exact .inr ⟨status, rfl⟩
  | ok denied =>
    obtain ⟨_, _, hany⟩ := bind_eq_ok.mp hlate
    cases denied with
    | true => exact .inl rfl
    | false => exact absurd hany (anyRuleMatches_extends hextends h)

/-- A rule on one scalar and one negated nested parameter. -/
def sampleRule : Compiled where
  rule :=
    { path := ascii "/control",
      params := [{ name := ascii "action", values := [ascii "drop"] },
        { name := ascii "c", values := [ascii "3"], negate := true, jsonField := some (ascii "f") }] }
  patterns := [none, none]

theorem early_denial_sound_nested :
    blocked sampleRead [sampleRule]
        [(ascii "action", ascii "drop"), (ascii "c", outOfOrderString)] false = .ok true ∧
      (blocked sampleRead [sampleRule]
          [(ascii "x", []), (ascii "action", ascii "drop"), (ascii "c", outOfOrderString)] true =
          .ok true ∨
        ∃ status, blocked sampleRead [sampleRule]
          [(ascii "x", []), (ascii "action", ascii "drop"), (ascii "c", outOfOrderString)] true =
          .error status) := by
  have h : blocked sampleRead [sampleRule]
      [(ascii "action", ascii "drop"), (ascii "c", outOfOrderString)] false = .ok true := by
    decide +kernel
  refine ⟨h, early_denial_sound ?_ h⟩
  intro name value hvalue
  rw [List.lookup_cons]
  split
  · rename_i hname
    rw [eq_of_beq hname] at hvalue
    cases hvalue
  · exact hvalue

end RequestBlocks
