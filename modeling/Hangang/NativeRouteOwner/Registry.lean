import Hangang.Framework.IpAddr
import Hangang.Framework.Machine
import Hangang.Framework.Table

/-! # Native Route Captures

    A capture keeps a request's route for one second, as long as the snapshot it was
    taken from is the published one. Its owner looks it up by a random reference. All
    lookups of one reference hold its shard's lock, so only publications happen during
    one. Every publication stores a snapshot that was just made, so snapshots are
    numbered here in the order of their publication.

    Clock readings and random references are choices of the labels. The shard is a
    function of the reference, so the sixteen maps are one table. -/

open Bytes

namespace NativeRouteOwner

/-- What the owner of a route is told about it. -/
structure OwnerScope where
  service : Bytes
  audience : Bytes
  resource : Bytes
  action : Bytes
  deriving DecidableEq, Repr

/-- The request and the route that are captured. -/
structure Request where
  enabled : Bool
  /-- The route is one of the snapshot, and its binding owns the request. -/
  owned : Bool
  routeId : Bytes
  /-- The binding's scope for the method, if it has one. -/
  scope : Option OwnerScope
  clientIp : IpAddr
  revision : Nat
  digest : Bytes
  uri : Bytes
  method : Bytes
  destinationSha256 : Bytes
  deriving DecidableEq, Repr

/-- Durations are in nanoseconds. -/
structure Lifetime where
  last : Nat
  failed : Bool
  deriving DecidableEq, Repr

/-- `id` numbers the captures; it stands for the identity of the allocation. -/
structure Entry where
  id : Nat
  request : Request
  snapshot : Nat
  lifetime : Lifetime
  deriving DecidableEq, Repr

structure RouteReply where
  requestId : Nat
  configurationRevision : Nat
  routeId : Bytes
  scope : OwnerScope
  clientIp : IpAddr
  requestSha256 : Bytes
  destinationSha256 : Bytes
  remainingMs : Nat
  deriving DecidableEq, Repr

/-- `pending` holds the captures that have a permit and are not in the table yet. -/
structure State where
  active : Nat
  entries : Table Bytes Entry
  available : Nat
  pending : List (Request × Nat)
  nextId : Nat

def second : Nat := 1000000000

/-- `Registry::new`. -/
def State.new (capacity : Nat) : Option State :=
  if 1 ≤ capacity ∧ capacity ≤ 4096 then some ⟨0, ∅, capacity, [], 0⟩ else none

/-! ## Lookups -/

/-- `Entry::remaining`, with the time that the stamp says has elapsed, or its failure. -/
def Lifetime.remaining (lifetime : Lifetime) (reading : Option Nat) : Option Nat × Lifetime :=
  if lifetime.failed then (none, lifetime)
  else match reading with
    | none => (none, { lifetime with failed := true })
    | some elapsed =>
      if elapsed < lifetime.last ∨ second ≤ elapsed then (none, { lifetime with failed := true })
      else (some (second - elapsed), { lifetime with last := elapsed })

def State.touch (s : State) (reference : Bytes) (entry : Entry) (lifetime : Lifetime) : State :=
  { s with entries := s.entries.insert reference { entry with lifetime } }

def validText (value : Bytes) : Bool := !value.isEmpty && value.length ≤ 128

def OwnerScope.valid (scope : OwnerScope) (routeId : Bytes) : Bool :=
  [routeId, scope.service, scope.audience, scope.resource, scope.action].all validText

/-- The clock part of `observe`: the remaining milliseconds from the first reading, if the
    second one is good, too. -/
def Lifetime.observe (lifetime : Lifetime) (first next : Option Nat) : Option Nat × Lifetime :=
  let (remaining, lifetime) := lifetime.remaining first
  match remaining with
  | none => (none, lifetime)
  | some remaining =>
    let ms := remaining / 1000000
    if 1 ≤ ms ∧ ms ≤ 1000 then
      let (again, lifetime) := lifetime.remaining next
      (again.map fun _ => ms, lifetime)
    else (none, lifetime)

/-- The arguments of `observe`, the two readings of the clock, and the publications between
    its two loads of the snapshot. -/
structure Observation where
  reference : Bytes
  requestSha256 : Bytes
  destinationSha256 : Bytes
  requestId : Nat
  first : Option Nat
  next : Option Nat
  published : Nat
  deriving DecidableEq, Repr

/-- The checks of `observe` before it reads the clock. -/
def Entry.admits (entry : Entry) (active : Nat) (o : Observation) : Option OwnerScope :=
  if entry.request.digest = o.requestSha256 ∧ entry.request.destinationSha256 = o.destinationSha256 ∧
      entry.request.enabled = true ∧ active = entry.snapshot then
    entry.request.scope.filter fun scope => scope.valid entry.request.routeId
  else none

def Entry.reply (entry : Entry) (o : Observation) (scope : OwnerScope) (ms : Nat) : RouteReply :=
  ⟨o.requestId, entry.request.revision, entry.request.routeId, scope, entry.request.clientIp,
    entry.request.digest, entry.request.destinationSha256, ms⟩

/-- `Registry::observe`. -/
def State.observe (s : State) (o : Observation) : Option RouteReply × State :=
  let s' := { s with active := s.active + o.published }
  match s.entries.lookup o.reference with
  | none => (none, s')
  | some entry =>
    match entry.admits s.active o with
    | none => (none, s')
    | some scope =>
      let (ms, lifetime) := entry.lifetime.observe o.first o.next
      (ms.bind fun ms => if s'.active = entry.snapshot then some (entry.reply o scope ms) else none,
        s'.touch o.reference entry lifetime)

/-- `Registry::check`. -/
def State.check (s : State) (reference digest uri method : Bytes) (reading : Option Nat) :
    Bool × State :=
  match s.entries.lookup reference with
  | none => (false, s)
  | some entry =>
    if entry.request.enabled = true ∧ entry.request.digest = digest ∧ entry.request.uri = uri ∧
        entry.request.method = method then
      let (remaining, lifetime) := entry.lifetime.remaining reading
      (remaining.isSome && s.active == entry.snapshot, s.touch reference entry lifetime)
    else (false, s)

/-- `Capture::current`: the check with the capture's own data. -/
def State.current (s : State) (reference : Bytes) (entry : Entry) (reading : Option Nat) :
    Bool × State :=
  s.check reference entry.request.digest entry.request.uri entry.request.method reading

/-! ## Steps -/

inductive Label where
  /-- `capture` until it has its permit. -/
  | acquire (request : Request) (snapshot : Nat)
  /-- The rest of it. The random bytes, the stamp and the reservation may each fail. -/
  | insert (index : Nat) (reference : Option Bytes) (stamped reserved : Bool)
  | publish
  | observe (o : Observation)
  | check (reference digest uri method : Bytes) (reading : Option Nat)
  /-- `Capture::drop`. -/
  | drop (reference : Bytes)
  deriving DecidableEq, Repr

/-- A capture that was refused gives its permit back. -/
def State.release (s : State) : State := { s with available := s.available + 1 }

def State.insert (s : State) (request : Request) (snapshot : Nat) (reference : Option Bytes)
    (stamped reserved : Bool) : State :=
  match reference with
  | none => s.release
  | some reference =>
    if stamped = true ∧ reference ∉ s.entries ∧ s.active = snapshot ∧ reserved = true then
      { s with
        entries := s.entries.insert reference ⟨s.nextId, request, snapshot, ⟨0, false⟩⟩
        nextId := s.nextId + 1 }
    else s.release

def step (s : State) : Label → Option State
  | .acquire request snapshot =>
    if request.enabled = true ∧ s.active = snapshot ∧ request.owned = true ∧ 0 < s.available then
      some { s with available := s.available - 1, pending := s.pending ++ [(request, snapshot)] }
    else some s
  | .insert index reference stamped reserved =>
    s.pending[index]?.map fun p =>
      State.insert { s with pending := s.pending.eraseIdx index } p.1 p.2 reference stamped reserved
  | .publish => some { s with active := s.active + 1 }
  | .observe o => some (s.observe o).2
  | .check reference digest uri method reading =>
    some (s.check reference digest uri method reading).2
  | .drop reference =>
    if reference ∈ s.entries then
      some { s with entries := s.entries.erase reference, available := s.available + 1 }
    else none

def machine : Machine State Label := ⟨step⟩

/-! ## Lifetimes -/

/-- A lifetime that was read again: its last reading grows, and a failure stays. -/
structure Lifetime.Older (a b : Lifetime) : Prop where
  last : a.last ≤ b.last
  failed : a.failed = true → b.failed = true

theorem Lifetime.Older.refl (a : Lifetime) : a.Older a := ⟨le_rfl, id⟩

theorem Lifetime.Older.trans {a b c : Lifetime} (h : a.Older b) (h' : b.Older c) : a.Older c :=
  ⟨h.last.trans h'.last, fun hf => h'.failed (h.failed hf)⟩

/-- What a reading does: it fails, or it moves the last reading on. -/
theorem Lifetime.remaining_cases (lifetime : Lifetime) (reading : Option Nat) :
    ((lifetime.remaining reading).1 = none ∧ (lifetime.remaining reading).2.failed = true ∧
        (lifetime.remaining reading).2.last = lifetime.last) ∨
      ∃ elapsed, reading = some elapsed ∧ lifetime.last ≤ elapsed ∧ elapsed < second ∧
        lifetime.failed = false ∧
        lifetime.remaining reading = (some (second - elapsed), ⟨elapsed, false⟩) := by
  unfold Lifetime.remaining
  by_cases hfailed : lifetime.failed = true
  · rw [if_pos hfailed]
    exact .inl ⟨rfl, hfailed, rfl⟩
  · rw [if_neg hfailed]
    rw [Bool.not_eq_true] at hfailed
    cases reading with
    | none => exact .inl ⟨rfl, rfl, rfl⟩
    | some elapsed =>
      by_cases hbad : elapsed < lifetime.last ∨ second ≤ elapsed
      · simp [hbad]
      · have hgood := not_or.mp hbad
        refine .inr ⟨elapsed, rfl, not_lt.mp hgood.1, not_le.mp hgood.2, hfailed, ?_⟩
        dsimp only
        rw [if_neg hbad, hfailed]

theorem Lifetime.remaining_older (lifetime : Lifetime) (reading : Option Nat) :
    lifetime.Older (lifetime.remaining reading).2 := by
  rcases lifetime.remaining_cases reading with ⟨-, hfailed, hlast⟩ | ⟨elapsed, -, hle, -, hgood, heq⟩
  · exact ⟨hlast.ge, fun _ => hfailed⟩
  · rw [heq]
    exact ⟨hle, fun hf => by rw [hgood] at hf; cases hf⟩

theorem Lifetime.remaining_of_failed {lifetime : Lifetime} (h : lifetime.failed = true)
    (reading : Option Nat) : (lifetime.remaining reading).1 = none := by
  unfold Lifetime.remaining
  rw [if_pos h]

theorem Lifetime.observe_older (lifetime : Lifetime) (first next : Option Nat) :
    lifetime.Older (lifetime.observe first next).2 := by
  have hfirst := lifetime.remaining_older first
  unfold Lifetime.observe
  rcases hread : lifetime.remaining first with ⟨remaining, lifetime'⟩
  rw [hread] at hfirst
  cases remaining with
  | none => exact hfirst
  | some remaining =>
    dsimp only
    split
    · exact hfirst.trans (lifetime'.remaining_older next)
    · exact hfirst

/-- A reported time is what the first reading left. -/
theorem Lifetime.observe_eq_some {lifetime : Lifetime} {first next : Option Nat} {ms : Nat}
    (h : (lifetime.observe first next).1 = some ms) :
    ∃ elapsed, lifetime.last ≤ elapsed ∧ elapsed ≤ (lifetime.observe first next).2.last ∧
      ms = (second - elapsed) / 1000000 ∧ lifetime.failed = false := by
  rcases lifetime.remaining_cases first with ⟨hnone, -⟩ | ⟨elapsed, -, hle, -, hgood, heq⟩
  · unfold Lifetime.observe at h
    rcases hread : lifetime.remaining first with ⟨remaining, lifetime'⟩
    rw [hread] at hnone h
    obtain rfl : remaining = none := hnone
    cases h
  · have holder := (Lifetime.mk elapsed false).remaining_older next
    unfold Lifetime.observe at h ⊢
    rw [heq] at h ⊢
    dsimp only at h ⊢
    split at h
    · next hms =>
      obtain ⟨_, -, rfl⟩ := Option.map_eq_some_iff.mp h
      rw [if_pos hms]
      exact ⟨elapsed, hle, holder.last, rfl, hgood⟩
    · cases h

end NativeRouteOwner
