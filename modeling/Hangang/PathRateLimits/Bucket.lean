import Hangang.PathBlocks

/-! # Rate-Limit Buckets

    `path_rate_limits`: a bucket admits requests to the URLs of one rule. A rule has
    a sustained rate with a burst, or fixed windows, or both; a request is charged
    to all of them or to none.

    Instants are numbers of nanoseconds, and a request costs as many units of credit
    as a second has nanoseconds, so that a rate of `tps` refills `tps` units each
    nanosecond. -/

namespace PathRateLimits

/-- The nanoseconds of a second, and the credit of a request. -/
def second : Nat := 1000000000

structure Window where
  requests : Nat
  windowSeconds : Nat
  deriving DecidableEq, Repr

structure Rule where
  path : Bytes
  includeSubpaths : Bool
  hosts : List Bytes
  tps : Option Nat
  burst : Nat
  limits : List Window
  deriving DecidableEq, Repr

/-! ## Validation -/

inductive RuleError where
  /-- "settings.path_rate_limits allows at most 128 rules" -/
  | rules
  /-- The paths and hosts are refused as blocked paths would be. -/
  | selector (e : PathBlocks.RuleError)
  /-- "duplicate path rate rule" -/
  | duplicate
  /-- "path rate tps must be 1..1000000" -/
  | tps
  /-- "path rate burst must be 1..1000000" -/
  | burst
  /-- "rate rule needs tps or limits" -/
  | unlimited
  /-- "rate rule allows at most 8 windows" -/
  | windows
  /-- "rate window requests must be 1..1000000 and seconds 1..86400" -/
  | window
  deriving DecidableEq, Repr

def Rule.selector (rule : Rule) : PathBlocks.Rule := ⟨rule.path, rule.hosts⟩

def Window.valid (window : Window) : Bool :=
  1 ≤ window.requests && window.requests ≤ 1000000 &&
    (1 ≤ window.windowSeconds && window.windowSeconds ≤ 86400)

/-- The loop over the rules; `seen` holds those before. -/
def validateRules (seen : List Rule) : List Rule → Except RuleError Unit
  | [] => .ok ()
  | rule :: rest =>
    if seen.contains rule then .error .duplicate
    else if !(rule.tps.all fun tps => 1 ≤ tps && tps ≤ 1000000) then .error .tps
    else if !(1 ≤ rule.burst && rule.burst ≤ 1000000) then .error .burst
    else if !(rule.tps.isSome || !rule.limits.isEmpty) then .error .unlimited
    else if rule.limits.length > 8 then .error .windows
    else if !rule.limits.all Window.valid then .error .window
    else validateRules (seen ++ [rule]) rest

/-- `path_rate_limits::validate`. -/
def validate (rules : List Rule) : Except RuleError Unit :=
  if rules.length > 128 then .error .rules
  else match PathBlocks.validate (rules.map Rule.selector) with
    | .error e => .error (.selector e)
    | .ok () => validateRules [] rules

/-- What validation promises of the windows of a rule. -/
theorem window_valid_of_validateRules {seen rules : List Rule}
    (h : validateRules seen rules = .ok ()) :
    ∀ rule ∈ rules, ∀ window ∈ rule.limits, window.valid = true := by
  induction rules generalizing seen with
  | nil => simp
  | cons rule rest ih =>
    simp only [validateRules, ite_eq_iff, reduceCtorEq, and_false, false_or] at h
    obtain ⟨-, -, -, -, -, hwindows, hrest⟩ := h
    intro r hr
    rcases List.mem_cons.mp hr with rfl | hmem
    · have hall : r.limits.all Window.valid = true := by simpa using hwindows
      exact List.all_eq_true.mp hall
    · exact ih hrest r hmem

theorem window_valid_of_validate {rules : List Rule} (h : validate rules = .ok ()) :
    ∀ rule ∈ rules, ∀ window ∈ rule.limits, window.valid = true := by
  unfold validate at h
  split at h
  · cases h
  · split at h
    · cases h
    · exact window_valid_of_validateRules h

/-! ## The bucket -/

structure State where
  updated : Nat
  credit : Nat
  /-- For each window of the rule its start and what it has admitted since. -/
  windows : List (Nat × Nat)
  deriving DecidableEq, Repr

/-- `Bucket::new`, at the instant of its creation. -/
def State.new (rule : Rule) (now : Nat) : State :=
  ⟨now, rule.burst * second, rule.limits.map fun _ => (now, 0)⟩

/-- `u128::MAX`. -/
def maxU128 : Nat := 2 ^ 128 - 1

/-- The credit after the refill. -/
def refilled (rule : Rule) (s : State) (now : Nat) : Nat :=
  let refill := min ((now - s.updated) * rule.tps.getD 0) maxU128
  min (min (s.credit + refill) maxU128) (rule.burst * second)

/-- The window has run out. -/
def expired (limit : Window) (now : Nat) (window : Nat × Nat) : Bool :=
  limit.windowSeconds ≤ (now - window.1) / second

def renewed (now : Nat) (limit : Window) (window : Nat × Nat) : Nat × Nat :=
  if expired limit now window then (max now window.1, 0) else window

/-- What `admit` does before it decides. -/
def refresh (rule : Rule) (s : State) (now : Nat) : State :=
  ⟨max now s.updated, refilled rule s now, rule.limits.zipWith (renewed now) s.windows⟩

/-- The condition under which `admit` refuses. -/
def exhausted (rule : Rule) (s : State) : Bool :=
  rule.tps.isSome && s.credit < second ||
    (rule.limits.zip s.windows).any fun pair => pair.1.requests ≤ pair.2.2

def charge (rule : Rule) (s : State) : State :=
  { s with
    credit := if rule.tps.isSome then s.credit - second else s.credit
    windows := s.windows.map fun window => (window.1, window.2 + 1) }

/-- `admit`. -/
def admitCall (rule : Rule) (s : State) (now : Nat) : Bool × State :=
  let s := refresh rule s now
  if exhausted rule s then (false, s) else (true, charge rule s)

/-! ## Calls -/

/-- The bucket after calls at these instants. -/
def after (rule : Rule) (s : State) (calls : List Nat) : State :=
  calls.foldl (fun s now => (admitCall rule s now).2) s

/-- The number of calls that were admitted. -/
def admitted (rule : Rule) : State → List Nat → Nat
  | _, [] => 0
  | s, now :: calls =>
    (if (admitCall rule s now).1 then 1 else 0) + admitted rule (admitCall rule s now).2 calls

/-- The call resets the window with this number. -/
def Resets (rule : Rule) (s : State) (now k : Nat) : Prop :=
  ∃ limit window, rule.limits[k]? = some limit ∧ s.windows[k]? = some window ∧
    expired limit now window = true

end PathRateLimits
