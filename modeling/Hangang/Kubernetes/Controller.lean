import Hangang.Framework.Machine
import Mathlib.Data.List.MinMax
import Mathlib.Logic.Function.Basic

/-! # The Controller Loop

    `kubernetes::Controller::run` as a machine. It is one task: between two points
    where it waits it runs without interruption, but the clock goes on, so every
    reading of the clock is a step of its own. The points where it waits are those
    with armed timers (`pause_until`, `drive`, the select over the watch messages),
    the report to the sink and the end of the watch tasks.

    What comes from outside is in the labels: the result of a list, the outcome of
    a reconciliation, the messages of the watch tasks, whether the cache has
    capacity again, and the random factor of a delay. Of the cache the loop itself
    reads only which kinds are incomplete. -/

namespace Kubernetes

inductive ResourceKind where
  | service
  | ingress
  | secret
  deriving DecidableEq, Repr

/-- `ResourceKind::enabled`. -/
def ResourceKind.enabled (secrets : Bool) : List ResourceKind :=
  if secrets then [service, ingress, secret] else [service, ingress]

/-! ## Health -/

/-- One second; instants count nanoseconds. -/
def second : Nat := 1000000000

structure Health where
  staleAfter : Nat
  kinds : List ResourceKind
  freshAt : ResourceKind → Option Nat
  activationFailed : Bool
  reported : Bool

/-- Why the cache is not authoritative. -/
inductive Defect where
  /-- "the desired configuration could not be activated" -/
  | notActivated
  /-- "{kind:?} objects have not been listed yet" -/
  | notListed (kind : ResourceKind)
  /-- "{kind:?} watch has been silent for {}s" -/
  | silent (kind : ResourceKind) (seconds : Nat)
  /-- "{kind:?} cache is incomplete until a relist succeeds" -/
  | incomplete (kind : ResourceKind)
  /-- "no configuration has been published yet" -/
  | unpublished
  deriving DecidableEq, Repr

namespace Health

def new (staleAfter : Nat) (secrets : Bool) : Health where
  staleAfter := staleAfter
  kinds := ResourceKind.enabled secrets
  freshAt _ := none
  activationFailed := false
  reported := false

/-- `touch_at`. -/
def touchAt (h : Health) (kind : ResourceKind) (moment : Nat) : Health :=
  { h with freshAt := Function.update h.freshAt kind (some moment) }

/-- One turn of the loop of `defect`. -/
def kindDefect (h : Health) (now : Nat) (incomplete : List ResourceKind) (kind : ResourceKind) :
    Option Defect :=
  match h.freshAt kind with
  | none => some (.notListed kind)
  | some moment =>
    if now - moment > h.staleAfter then some (.silent kind ((now - moment) / second))
    else if kind ∈ incomplete then some (.incomplete kind)
    else none

def defect (h : Health) (now : Nat) (incomplete : List ResourceKind) (published : Bool) :
    Option Defect :=
  if h.activationFailed then some .notActivated
  else (h.kinds.findSome? (h.kindDefect now incomplete)).or
    (if published then none else some .unpublished)

/-- The earliest moment at which a currently fresh kind becomes stale. -/
def deadline (h : Health) (now : Nat) : Option Nat :=
  (((h.kinds.filterMap h.freshAt).map (· + h.staleAfter)).filter (now < ·)).min?

theorem kindDefect_eq_none {h : Health} {now : Nat} {incomplete : List ResourceKind}
    {kind : ResourceKind} :
    h.kindDefect now incomplete kind = none ↔
      (∃ moment, h.freshAt kind = some moment ∧ now ≤ moment + h.staleAfter) ∧
        kind ∉ incomplete := by
  unfold kindDefect
  cases h.freshAt kind with
  | none => simp
  | some moment =>
    by_cases hstale : now - moment > h.staleAfter
    · have hlate : ¬ now ≤ moment + h.staleAfter := by omega
      simp [hstale, hlate]
    · have hfresh : now ≤ moment + h.staleAfter := by omega
      simp [hstale, hfresh]

/-- The cache is authoritative. -/
theorem defect_eq_none {h : Health} {now : Nat} {incomplete : List ResourceKind}
    {published : Bool} :
    h.defect now incomplete published = none ↔
      h.activationFailed = false ∧ published = true ∧
      ∀ kind ∈ h.kinds, (∃ moment, h.freshAt kind = some moment ∧ now ≤ moment + h.staleAfter) ∧
        kind ∉ incomplete := by
  unfold defect
  cases h.activationFailed with
  | true => simp
  | false =>
    rw [if_neg (by simp), Option.or_eq_none_iff, List.findSome?_eq_none_iff]
    simp only [kindDefect_eq_none]
    cases published <;> simp

/-- A kind that is not yet stale bounds the deadline. -/
theorem deadline_le {h : Health} {now moment : Nat} {kind : ResourceKind} (hkind : kind ∈ h.kinds)
    (hfresh : h.freshAt kind = some moment) (hnow : now < moment + h.staleAfter) :
    ∃ t, h.deadline now = some t ∧ t ≤ moment + h.staleAfter := by
  have hmem : moment + h.staleAfter ∈
      ((h.kinds.filterMap h.freshAt).map (· + h.staleAfter)).filter (now < ·) := by
    refine List.mem_filter.mpr ⟨List.mem_map.mpr ⟨moment, ?_, rfl⟩, decide_eq_true hnow⟩
    exact List.mem_filterMap.mpr ⟨kind, hkind, hfresh⟩
  cases hmin : h.deadline now with
  | none =>
    rw [deadline, List.min?_eq_none_iff] at hmin
    rw [hmin] at hmem
    exact absurd hmem List.not_mem_nil
  | some t => exact ⟨t, rfl, (List.min?_eq_some_iff.mp hmin).2 _ hmem⟩

end Health

/-! ## The loop -/

/-- `reconcile`: the candidate was invalid or not accepted, equals what is published,
    or was accepted by the sink. -/
inductive Outcome where
  | rejected
  | unchanged
  | applied
  deriving DecidableEq, Repr

/-- What `apply_bounded` does with an object. -/
inductive Applied where
  /-- stored or removed; whether the cache is recoverable then -/
  | ok (recoverable : Bool)
  /-- `CapacityExceeded`, with the delay of the relist -/
  | capacity (jittered : Nat)
  | invalid
  deriving DecidableEq, Repr

inductive WatchAction where
  | upsert
  | delete
  deriving DecidableEq, Repr

inductive WatchMessage where
  | event (kind : ResourceKind) (action : WatchAction) (applied : Applied)
  | alive (kind : ResourceKind)
  | tick (kind : ResourceKind)
  | expired
  deriving DecidableEq, Repr

/-- The loop that an assessment belongs to, or that a waiting point is in. -/
inductive Loop where
  /-- `pause_until`; whether it is the delay after a failed list -/
  | pause (limit : Nat) (retry : Bool)
  /-- `drive(list_all)` -/
  | list
  /-- `drive(reconcile)`, called in the watch loop with its relist timer or before it -/
  | reconcile (watching : Option (Option Nat))
  /-- after `publish`, before the watch tasks are started -/
  | enter
  /-- the watch loop -/
  | watch (relistAt : Option Nat)
  deriving DecidableEq, Repr

inductive Phase where
  /-- the head of the outer loop -/
  | top
  /-- about to list -/
  | starting
  /-- about to read the clock in `deadline` -/
  | arming (loop : Loop)
  /-- about to read the clock in `defect` -/
  | assessing (applied : Bool) (loop : Loop)
  /-- `report_authority(..).await` -/
  | reporting (loop : Loop)
  /-- about to compare the clock with the end of a pause -/
  | checking (limit : Nat) (retry : Bool)
  /-- about to start the watch tasks -/
  | entering
  | pausing (limit wake : Nat) (retry : Bool)
  | listing (staleAt : Option Nat)
  | reconciling (staleAt : Option Nat) (watching : Option (Option Nat))
  | watching (relistAt staleAt : Option Nat)
  /-- the watch tasks are ending; whether the cache will be discarded -/
  | closing (discard : Bool)
  | cancelled
  deriving DecidableEq, Repr

/-- The variables of `run`. The fields from `sink` on record what happened: the last
    report, the outcome of the latest reconciliation, the kinds that rejected an
    object since their last list and those whose mark was discarded since then. -/
structure Controller where
  now : Nat
  health : Health
  /-- the incomplete kinds of the current cache -/
  current : Option (List ResourceKind)
  /-- a snapshot has been published -/
  lastGood : Bool
  lastList : Option Nat
  delay : Nat
  phase : Phase
  sink : Option Bool
  latest : Option Outcome
  rejected : List ResourceKind
  lost : List ResourceKind

namespace Controller

def initial (staleAfter : Nat) (secrets : Bool) (now : Nat) : Controller where
  now := now
  health := Health.new staleAfter secrets
  current := none
  lastGood := false
  lastList := none
  delay := second / 5
  phase := .top
  sink := none
  latest := none
  rejected := []
  lost := []

/-- The incomplete kinds that an assessment is given. -/
def incomplete (s : Controller) : List ResourceKind := s.current.getD []

def minRelistInterval : Nat := 5 * second

def capacityRelistTimer : Nat := 60 * second

/-- A delay scaled by a factor from 0.8 to 1.2. -/
def isJitter (base jittered : Nat) : Bool := 4 * base ≤ 5 * jittered && 5 * jittered ≤ 6 * base

/-- `schedule`: the earlier of the two moments. -/
def schedule (slot : Option Nat) (moment : Nat) : Option Nat :=
  some (slot.elim moment fun current => min current moment)

def touch (s : Controller) (kind : ResourceKind) : Controller :=
  { s with health := s.health.touchAt kind s.now }

/-- The deadline is read and the timers are armed. -/
def arm (s : Controller) : Loop → Option Controller
  | .pause limit retry =>
    let wake := (s.health.deadline s.now).elim limit fun t => min t limit
    some { s with phase := .pausing limit wake retry }
  | .list => some { s with phase := .listing (s.health.deadline s.now) }
  | .reconcile watching =>
    some { s with phase := .reconciling (s.health.deadline s.now) watching }
  | .enter => none
  | .watch relistAt => some { s with phase := .watching relistAt (s.health.deadline s.now) }

/-- Where a loop goes on after an assessment. -/
def resume : Loop → Phase
  | .pause limit retry => .checking limit retry
  | .enter => .entering
  | loop => .arming loop

/-- `assess`. -/
def assess (s : Controller) (applied : Bool) (loop : Loop) : Controller :=
  let healthy := (s.health.defect s.now s.incomplete s.lastGood).isNone
  let changed := healthy != s.health.reported
  let reassert := applied && !healthy
  if !changed && !reassert then { s with phase := resume loop }
  else
    { s with
      health := { s.health with reported := healthy }
      sink := some healthy
      phase := .reporting loop }

/-- The end of a pause. -/
def check (s : Controller) (limit : Nat) (retry : Bool) : Controller :=
  if limit ≤ s.now then
    if retry then { s with delay := min (s.delay * 2) (10 * second), phase := .top }
    else { s with phase := .starting }
  else { s with phase := .arming (.pause limit retry) }

/-- The watch tasks have ended. -/
def close (s : Controller) (discard : Bool) : Controller :=
  if discard then { s with current := none, lost := s.lost ++ s.incomplete, phase := .top }
  else { s with phase := .top }

/-- One step of the task itself. -/
def proceed (s : Controller) (jittered : Nat) : Option Controller :=
  match s.phase with
  | .top =>
    match s.lastList with
    | none => some { s with phase := .starting }
    | some started =>
      if isJitter minRelistInterval jittered then
        some { s with phase := .arming (.pause (started + jittered) false) }
      else none
  | .starting => some { s with lastList := some s.now, phase := .arming .list }
  | .arming loop => s.arm loop
  | .assessing applied loop => some (s.assess applied loop)
  | .reporting loop => some { s with phase := resume loop }
  | .checking limit retry => some (s.check limit retry)
  | .entering =>
    if s.incomplete = [] then some { s with phase := .arming (.watch none) }
    else if isJitter capacityRelistTimer jittered then
      some { s with phase := .arming (.watch (some (s.now + jittered))) }
    else none
  | .closing discard => some (s.close discard)
  | _ => none

/-- A freshness timer fires. -/
def wake (s : Controller) : Option Controller :=
  match s.phase with
  | .pausing limit wake retry =>
    if wake ≤ s.now then some { s with phase := .assessing false (.pause limit retry) } else none
  | .listing (some staleAt) =>
    if staleAt ≤ s.now then some { s with phase := .assessing false .list } else none
  | .reconciling (some staleAt) watching =>
    if staleAt ≤ s.now then some { s with phase := .assessing false (.reconcile watching) } else none
  | .watching relistAt (some staleAt) =>
    if staleAt ≤ s.now then some { s with phase := .assessing false (.watch relistAt) } else none
  | _ => none

/-- `list_all` has finished, with the moment at which each kind was confirmed. -/
def listed (s : Controller) (confirmed : Option (ResourceKind → Nat)) (jittered : Nat) :
    Option Controller :=
  match s.phase, confirmed with
  | .listing _, some confirmed =>
    if ∀ kind ∈ s.health.kinds, s.lastList.getD 0 ≤ confirmed kind ∧ confirmed kind ≤ s.now then
      some { s with
        delay := second / 5
        health := s.health.kinds.foldl (fun h kind => h.touchAt kind (confirmed kind)) s.health
        current := some []
        rejected := []
        lost := []
        phase := .arming (.reconcile none) }
    else none
  | .listing _, none =>
    if s.current.isSome then some { s with phase := .arming (.reconcile none) }
    else if isJitter s.delay jittered then
      some { s with phase := .arming (.pause (s.now + jittered) true) }
    else none
  | _, _ => none

/-- The reconciliation has finished. -/
def reconciled (s : Controller) (outcome : Outcome) : Option Controller :=
  match s.phase with
  | .reconciling _ watching =>
    if outcome = .unchanged ∧ s.lastGood = false then none
    else
      some { s with
        health := { s.health with activationFailed := decide (outcome = .rejected) }
        lastGood := s.lastGood || decide (outcome = .applied)
        latest := some outcome
        phase := .assessing (decide (outcome = .applied)) (watching.elim .enter .watch) }
  | _ => none

/-- An object of the watch. -/
def event (s : Controller) (relistAt : Option Nat) (kind : ResourceKind) (action : WatchAction) :
    Applied → Option Controller
  | .ok recoverable =>
    if recoverable = true ∧ s.incomplete = [] then none
    else
      let relistAt := if action = .delete ∧ recoverable = true then schedule relistAt s.now
        else relistAt
      some { s.touch kind with phase := .arming (.reconcile (some relistAt)) }
  | .capacity jittered =>
    if isJitter capacityRelistTimer jittered then
      some { s.touch kind with
        current := s.current.map (List.insert kind)
        rejected := s.rejected.insert kind
        phase := .assessing false (.watch (schedule relistAt (s.now + jittered))) }
    else none
  | .invalid => some { s.touch kind with phase := .arming (.watch relistAt) }

/-- A message of a watch task. -/
def message (s : Controller) (m : WatchMessage) : Option Controller :=
  match s.phase with
  | .watching relistAt _ =>
    match m with
    | .event kind action applied =>
      if kind ∈ s.health.kinds then s.event relistAt kind action applied else none
    | .alive kind =>
      if kind ∈ s.health.kinds then
        some { s.touch kind with phase := .assessing false (.watch relistAt) }
      else none
    | .tick kind =>
      if kind ∈ s.health.kinds then
        some { s.touch kind with phase := .arming (.reconcile (some relistAt)) }
      else none
    | .expired => some { s with phase := .closing true }
  | _ => none

/-- The relist timer fires. -/
def relist (s : Controller) (recoverable : Bool) (jittered : Nat) : Option Controller :=
  match s.phase with
  | .watching (some relistAt) _ =>
    if relistAt ≤ s.now then
      if recoverable then
        if s.incomplete = [] then none else some { s with phase := .closing false }
      else if isJitter capacityRelistTimer jittered then
        some { s with phase := .arming (.watch (some (s.now + jittered))) }
      else none
    else none
  | _ => none

/-- All watch tasks have ended by themselves. -/
def closed (s : Controller) : Option Controller :=
  match s.phase with
  | .watching _ _ => some { s with phase := .closing false }
  | _ => none

/-- The cancellation token, which every wait with a timer selects on. -/
def cancel (s : Controller) : Option Controller :=
  match s.phase with
  | .pausing _ _ _ | .listing _ | .watching _ _ | .top => some { s with phase := .cancelled }
  | _ => none

inductive Label where
  /-- the clock goes on -/
  | elapse (nanos : Nat)
  | proceed (jittered : Nat)
  | wake
  | listed (confirmed : Option (ResourceKind → Nat)) (jittered : Nat)
  | reconciled (outcome : Outcome)
  | message (m : WatchMessage)
  | relist (recoverable : Bool) (jittered : Nat)
  | closed
  | cancel

def step (s : Controller) : Label → Option Controller
  | .elapse nanos => some { s with now := s.now + nanos }
  | .proceed jittered => s.proceed jittered
  | .wake => s.wake
  | .listed confirmed jittered => s.listed confirmed jittered
  | .reconciled outcome => s.reconciled outcome
  | .message m => s.message m
  | .relist recoverable jittered => s.relist recoverable jittered
  | .closed => s.closed
  | .cancel => s.cancel

/-- The machine of the loop. -/
def machine : Machine Controller Label where
  step := step

end Controller

end Kubernetes
