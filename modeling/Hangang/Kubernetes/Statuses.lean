import Hangang.Framework.IpAddr
import Hangang.Framework.Machine
import Hangang.Kubernetes.Hosts

/-! # Status Reports of Ingresses

    `StatusQueue` and the part of the cache that status reports touch: the controller loop
    compares the cached address lists with the admitted Ingresses and queues patches, a
    worker sends them, and their responses are folded back into the cache.

    * **The machine**: synchronisation, start, completion, fold-back and watch events in
      any interleaving.
    * **Safety**: one patch at a time for an Ingress, and work only for Ingresses that were
      live and selected at the last synchronisation.
    * **The cache**: a response waits between its completion and its fold-back, and
      `update_status` does not compare versions. A watch event that overtakes the response
      is overwritten by it. -/

open Bytes

namespace Kubernetes

namespace Status

/-! ## Address lists -/

inductive Desired where
  | add
  | remove
  deriving DecidableEq, Repr

def addressField (address : Bytes) : String :=
  if (IpAddr.parse address).isSome then "ip" else "hostname"

def addressEntry (address : Bytes) : Json :=
  .object [(ascii (addressField address), .string address)]

/-- Whether a load-balancer entry names the configured address. -/
def carries (address : Bytes) (item : Json) : Bool :=
  (item.get (addressField address)).bind Json.asStr == some address

def mergeEntries (address : Bytes) (list : List Json) (desired : Desired) : List Json :=
  let merged := list.filter fun item => desired == .add || !carries address item
  if desired == .add && !merged.any (carries address) then merged ++ [addressEntry address]
  else merged

theorem carries_addressEntry (address : Bytes) : carries address (addressEntry address) = true := by
  simp [carries, addressEntry, Json.get, Json.asObject, Json.asStr]

theorem mergeEntries_add (address : Bytes) (list : List Json) :
    mergeEntries address list .add =
      if list.any (carries address) then list else list ++ [addressEntry address] := by
  unfold mergeEntries
  cases h : list.any (carries address) <;> simp [h]

theorem mergeEntries_remove (address : Bytes) (list : List Json) :
    mergeEntries address list .remove = list.filter fun item => !carries address item := rfl

/-- The gateway's own entry is there afterwards, or is not, as desired. -/
theorem any_mergeEntries (address : Bytes) (list : List Json) (desired : Desired) :
    (mergeEntries address list desired).any (carries address) = (desired == .add) := by
  cases desired with
  | add =>
    rw [mergeEntries_add]
    cases h : list.any (carries address) with
    | true => simpa using h
    | false => simp [carries_addressEntry]
  | remove =>
    rw [mergeEntries_remove, List.any_filter, List.any_eq_false.mpr (by simp)]
    rfl

/-- **The entries of others stay**, in their order. -/
theorem mergeEntries_others (address : Bytes) (list : List Json) (desired : Desired) :
    (mergeEntries address list desired).filter (fun item => !carries address item) =
      list.filter fun item => !carries address item := by
  cases desired with
  | add =>
    rw [mergeEntries_add]
    cases list.any (carries address) <;> simp [carries_addressEntry]
  | remove =>
    rw [mergeEntries_remove, List.filter_filter]
    simp

/-! ## The cache and the queue -/

/-- What the server answered about an object: the `resourceVersion` and the address list,
    and the place of the version in the history of the server. -/
structure Version where
  order : Nat
  resourceVersion : Bytes
  entries : List Json

/-- A cached Ingress; the class is what `selected` reads. -/
structure Ingress where
  ingressClass : Option Bytes
  version : Version

def Ingress.selected (ingress : Ingress) (cls : Bytes) : Bool := ingress.ingressClass == some cls

/-- The base `resourceVersion` and the desired change identify one unit of work. -/
abbrev Base : Type := Bytes × Desired

structure Request where
  desired : Desired
  object : Ingress

def Request.base (request : Request) : Base :=
  (request.object.version.resourceVersion, request.desired)

/-- The body of a patch: its precondition and the merged list. The first attempt starts from
    the queued object, one after a conflict from the version that was read again. -/
def patchBody (address : Bytes) (current : Version) (desired : Desired) : Bytes × List Json :=
  (current.resourceVersion, mergeEntries address current.entries desired)

inductive WatchAction where
  | upsert
  | delete
  deriving DecidableEq, Repr

/-- The options that the reports depend on. -/
structure Options where
  ingressClass : Bytes
  address : Bytes
  limit : Nat

/-- The queue and the cache, with the patches that run. -/
structure State where
  cache : Table ObjectKey Ingress
  queued : Table ObjectKey Request
  inFlight : Table ObjectKey Base
  /-- Work completed but not yet folded back into the cache. -/
  satisfied : Table ObjectKey Base
  results : List (ObjectKey × Version)
  tasks : List (ObjectKey × Base)
  /-- No watch event came since the last synchronisation. -/
  synced : Bool
  /-- The events and responses that reached the cache, the newest first; nothing reads it.
      What was received and is not here waits in `results`. -/
  delivered : List (ObjectKey × Version)

def initial : State := ⟨∅, ∅, ∅, ∅, [], [], true, []⟩

/-- `STATUS_PATCH_CONCURRENCY`. -/
def patchConcurrency : Nat := 4

/-- `StatusState::admit`: the work is queued unless it is in flight or done already. -/
def admitWork (limit : Nat) (s : State) (queued : Table ObjectKey Request)
    (work : ObjectKey × Request) : Table ObjectKey Request :=
  if s.satisfied.lookup work.1 = some work.2.base ∨ s.inFlight.lookup work.1 = some work.2.base
  then queued
  else if limit ≤ queued.size ∧ (queued.lookup work.1).isNone then queued
  else queued.insert work.1 work.2

/-- The selected Ingresses of the cache. -/
def selectedEntries (o : Options) (cache : Table ObjectKey Ingress) : List (ObjectKey × Ingress) :=
  (cache.entries.map fun e => (e.1, e.2)).filter fun e => e.2.selected o.ingressClass

/-- The change that an Ingress needs. -/
def workFor (o : Options) (admitted : List ObjectKey) (e : ObjectKey × Ingress) :
    Option (ObjectKey × Request) :=
  let action := if e.1 ∈ admitted then Desired.add else .remove
  if e.2.version.entries.any (carries o.address) = (action == .add) then none
  else some (e.1, ⟨action, e.2⟩)

/-- The keys that stay queued and the work to queue; nothing new where the candidate was
    rejected. -/
def plan (o : Options) (s : State) : Option (List ObjectKey) →
    List ObjectKey × List (ObjectKey × Request)
  | none => ((selectedEntries o s.cache).map (·.1), [])
  | some admitted =>
    let work := (selectedEntries o s.cache).filterMap (workFor o admitted)
    (work.map (·.1), work)

/-- `sync_statuses`. -/
def sync (o : Options) (s : State) (admitted : Option (List ObjectKey)) : State :=
  let pruned := s.queued.retain fun key _ => key ∈ (plan o s admitted).1
  { s with queued := (plan o s admitted).2.foldl (admitWork o.limit s) pruned, synced := true }

/-- `ResourceCache::update_status`: the cached object takes the version, whichever it is. -/
def updateStatus (cache : Table ObjectKey Ingress) (result : ObjectKey × Version) :
    Table ObjectKey Ingress :=
  match cache.lookup result.1 with
  | none => cache
  | some ingress => cache.insert result.1 { ingress with version := result.2 }

/-- One result of `take_results`. -/
def absorb (s : State) (result : ObjectKey × Version) : State :=
  { s with
    cache := updateStatus s.cache result
    satisfied := s.satisfied.erase result.1
    delivered := result :: s.delivered }

def foldBack (s : State) : State := { s.results.foldl absorb s with results := [] }

inductive Label where
  | sync (admitted : Option (List ObjectKey))
  /-- The worker takes a queued object that is not being patched. -/
  | start (key : ObjectKey)
  /-- A patch ends with the server's object, or without one. -/
  | complete (key : ObjectKey) (base : Base) (outcome : Option Version)
  /-- The task of a patch panics; its key stays in flight. -/
  | crash (key : ObjectKey) (base : Base)
  | foldBack
  /-- A watch event; `room` says whether the cache takes one more object. -/
  | event (action : WatchAction) (key : ObjectKey) (ingress : Ingress) (room : Bool)

def applyEvent (s : State) (action : WatchAction) (key : ObjectKey) (ingress : Ingress)
    (room : Bool) : State :=
  let cache := match action with
    | .upsert => if room then s.cache.insert key ingress else s.cache
    | .delete => s.cache.erase key
  { s with cache, synced := false, delivered := (key, ingress.version) :: s.delivered }

def finish (s : State) (key : ObjectKey) (base : Base) : Option Version → State
  | none => { s with tasks := s.tasks.erase (key, base), inFlight := s.inFlight.erase key }
  | some version =>
    { s with
      tasks := s.tasks.erase (key, base)
      inFlight := s.inFlight.erase key
      satisfied := s.satisfied.insert key base
      results := s.results ++ [(key, version)] }

def launch (s : State) (key : ObjectKey) (request : Request) : State :=
  { s with
    queued := s.queued.erase key
    inFlight := s.inFlight.insert key request.base
    tasks := (key, request.base) :: s.tasks }

def machine (o : Options) : Machine State Label where
  step s
    | .sync admitted => some (sync o s admitted)
    | .start key =>
      if s.tasks.length < patchConcurrency ∧ (s.inFlight.lookup key).isNone then
        (s.queued.lookup key).map (launch s key)
      else none
    | .complete key base outcome =>
      if (key, base) ∈ s.tasks then some (finish s key base outcome) else none
    | .crash key base =>
      if (key, base) ∈ s.tasks then some { s with tasks := s.tasks.erase (key, base) } else none
    | .foldBack => some (foldBack s)
    | .event action key ingress room => some (applyEvent s action key ingress room)

/-! ## Safety -/

variable {o : Options} {s : State} {request : Request} {delivered : List (ObjectKey × Version)}

theorem mem_selectedEntries {cache : Table ObjectKey Ingress} {e : ObjectKey × Ingress}
    (h : e ∈ selectedEntries o cache) :
    cache.lookup e.1 = some e.2 ∧ e.2.selected o.ingressClass = true := by
  obtain ⟨hmem, hselected⟩ := List.mem_filter.mp h
  obtain ⟨entry, hentry, rfl⟩ := List.mem_map.mp hmem
  exact ⟨AList.mem_lookup_iff.mpr hentry, hselected⟩

/-- The object is cached and selected. -/
def Live (o : Options) (cache : Table ObjectKey Ingress) (key : ObjectKey) : Prop :=
  ∃ ingress, cache.lookup key = some ingress ∧ ingress.selected o.ingressClass = true

theorem live_of_plan {admitted : Option (List ObjectKey)} {key : ObjectKey}
    (h : key ∈ (plan o s admitted).1 ∨ key ∈ (plan o s admitted).2.map (·.1)) :
    Live o s.cache key := by
  have hwork : ∀ keys, key ∈ ((selectedEntries o s.cache).filterMap (workFor o keys)).map (·.1) →
      Live o s.cache key := by
    intro keys hkey
    obtain ⟨work, hwork, rfl⟩ := List.mem_map.mp hkey
    obtain ⟨e, he, hfor⟩ := List.mem_filterMap.mp hwork
    obtain ⟨-, hfor⟩ := Option.ite_none_left_eq_some.mp hfor
    obtain rfl := Option.some.inj hfor
    exact ⟨e.2, mem_selectedEntries he⟩
  cases admitted with
  | none =>
    rcases h with h | h
    · obtain ⟨e, he, rfl⟩ := List.mem_map.mp h
      exact ⟨e.2, mem_selectedEntries he⟩
    · cases h
  | some keys => exact h.elim (hwork keys) (hwork keys)

theorem lookup_admit {limit : Nat} {queued : Table ObjectKey Request} {work : ObjectKey × Request}
    {key : ObjectKey} (h : (admitWork limit s queued work).lookup key = some request) :
    key = work.1 ∨ queued.lookup key = some request := by
  unfold admitWork at h
  split at h
  · exact .inr h
  · split at h
    · exact .inr h
    · exact (Table.lookup_of_insert h).imp_left (·.1)

theorem lookup_foldl_admit {limit : Nat} {queued : Table ObjectKey Request}
    {work : List (ObjectKey × Request)} {key : ObjectKey}
    (h : (work.foldl (admitWork limit s) queued).lookup key = some request) :
    key ∈ work.map (·.1) ∨ queued.lookup key = some request := by
  induction work generalizing queued with
  | nil => exact .inr h
  | cons first work ih =>
    rcases ih h with hmem | hlookup
    · exact .inl (List.mem_cons_of_mem _ hmem)
    · rcases lookup_admit hlookup with rfl | hold
      · exact .inl List.mem_cons_self
      · exact .inr hold

/-- A synchronisation leaves work for live selected Ingresses only. -/
theorem live_of_sync {o : Options} {s : State} {admitted : Option (List ObjectKey)}
    {key : ObjectKey} {request : Request}
    (h : (sync o s admitted).queued.lookup key = some request) : Live o s.cache key := by
  rcases lookup_foldl_admit h with hwork | hold
  · exact live_of_plan (.inr hwork)
  · rw [Table.lookup_retain, Option.filter_eq_some_iff] at hold
    exact live_of_plan (.inl (of_decide_eq_true hold.2))

theorem live_updateStatus {cache : Table ObjectKey Ingress} {key : ObjectKey} (h : Live o cache key)
    (result : ObjectKey × Version) :
    Live o (updateStatus cache result) key := by
  obtain ⟨ingress, hlookup, hselected⟩ := h
  unfold updateStatus
  split
  · exact ⟨ingress, hlookup, hselected⟩
  · next old hold =>
    by_cases hkey : key = result.1
    · subst hkey
      obtain rfl := Option.some.inj (hold.symm.trans hlookup)
      exact ⟨_, AList.lookup_insert _, hselected⟩
    · exact ⟨ingress, by rw [AList.lookup_insert_ne hkey, hlookup], hselected⟩

/-- What holds in every run. -/
structure Safe (o : Options) (s : State) : Prop where
  tasks : (s.tasks.map (·.1)).Nodup
  flying : ∀ task ∈ s.tasks, (s.inFlight.lookup task.1).isSome = true
  queued : s.synced = true → ∀ key request, s.queued.lookup key = some request → Live o s.cache key

theorem Safe.absorb (h : Safe o s) (result : ObjectKey × Version) :
    Safe o (absorb s result) where
  tasks := h.tasks
  flying := h.flying
  queued hsynced key request hlookup :=
    live_updateStatus (h.queued hsynced key request hlookup) result

theorem Safe.foldl_absorb (h : Safe o s) (results : List (ObjectKey × Version)) :
    Safe o (results.foldl Status.absorb s) := by
  induction results generalizing s with
  | nil => exact h
  | cons result results ih => exact ih (h.absorb result)

theorem Safe.launch (h : Safe o s) {key : ObjectKey}
    (hnone : (s.inFlight.lookup key).isNone = true) : Safe o (launch s key request) where
  tasks := by
    refine List.nodup_cons.mpr ⟨?_, h.tasks⟩
    intro hmem
    obtain ⟨task, htask, rfl⟩ := List.mem_map.mp hmem
    have hsome := h.flying task htask
    rw [Option.isNone_iff_eq_none.mp hnone] at hsome
    cases hsome
  flying := by
    intro task htask
    rcases List.mem_cons.mp htask with rfl | htask
    · exact congrArg Option.isSome (AList.lookup_insert s.inFlight)
    · by_cases hkey : task.1 = key
      · rw [hkey]
        exact congrArg Option.isSome (AList.lookup_insert s.inFlight)
      · exact (congrArg Option.isSome (AList.lookup_insert_ne hkey)).trans (h.flying task htask)
  queued hsynced key' request' hlookup :=
    h.queued hsynced key' request' (Table.lookup_of_erase hlookup).2

/-- Once a patch has ended, no other patch of its key runs. -/
theorem Safe.key_ne (h : Safe o s) {key : ObjectKey} {base : Base} (hmem : (key, base) ∈ s.tasks)
    {task : ObjectKey × Base} (htask : task ∈ s.tasks.erase (key, base)) : task.1 ≠ key := by
  intro hkey
  have hnodup : s.tasks.Nodup := h.tasks.of_map _
  obtain ⟨hne, htask⟩ := hnodup.mem_erase_iff.mp htask
  exact hne (List.inj_on_of_nodup_map h.tasks htask hmem hkey)

theorem Safe.finish (h : Safe o s) {key : ObjectKey} {base : Base} (hmem : (key, base) ∈ s.tasks)
    (outcome : Option Version) :
    Safe o (finish s key base outcome) := by
  have htasks : ((s.tasks.erase (key, base)).map (·.1)).Nodup :=
    (List.erase_sublist.map _).nodup h.tasks
  have hflying : ∀ task ∈ s.tasks.erase (key, base),
      ((s.inFlight.erase key).lookup task.1).isSome = true := by
    intro task htask
    rw [AList.lookup_erase_ne (h.key_ne hmem htask)]
    exact h.flying task (List.mem_of_mem_erase htask)
  cases outcome with
  | none => exact ⟨htasks, hflying, h.queued⟩
  | some version => exact ⟨htasks, hflying, h.queued⟩

theorem safe_initial (o : Options) : Safe o initial where
  tasks := List.nodup_nil
  flying := by simp [initial]
  queued := by simp [initial]

/-- **Step lemma** for safety. -/
theorem Safe.step {o : Options} {s s' : State} {l : Label} (h : Safe o s)
    (hstep : (machine o).step s l = some s') : Safe o s' := by
  cases l with
  | sync admitted =>
    obtain rfl := Option.some.inj hstep
    refine ⟨h.tasks, h.flying, fun _ key request hlookup => ?_⟩
    exact @live_of_sync o s admitted key request hlookup
  | start key =>
    obtain ⟨hguard, hstep⟩ := Option.ite_none_right_eq_some.mp hstep
    obtain ⟨request, -, rfl⟩ := Option.map_eq_some_iff.mp hstep
    exact h.launch hguard.2
  | complete key base outcome =>
    obtain ⟨hmem, hstep⟩ := Option.ite_none_right_eq_some.mp hstep
    obtain rfl := Option.some.inj hstep
    exact h.finish hmem outcome
  | crash key base =>
    obtain ⟨hmem, hstep⟩ := Option.ite_none_right_eq_some.mp hstep
    obtain rfl := Option.some.inj hstep
    refine ⟨(List.erase_sublist.map _).nodup h.tasks, ?_, h.queued⟩
    intro task htask
    exact h.flying task (List.mem_of_mem_erase htask)
  | foldBack =>
    obtain rfl := Option.some.inj hstep
    have hfolded := h.foldl_absorb s.results
    exact ⟨hfolded.tasks, hfolded.flying, hfolded.queued⟩
  | event action key ingress room =>
    obtain rfl := Option.some.inj hstep
    exact ⟨h.tasks, h.flying, fun hsynced => Bool.noConfusion hsynced⟩

/-! ## The cached versions -/

/-- The label is no event that the cache has no room for. -/
def Label.taken : Label → Bool
  | .event .upsert _ _ room => room
  | _ => true

/-- The cached version of an object is the one that reached the cache last. -/
def Tracks (s : State) : Prop :=
  ∀ key ingress, s.cache.lookup key = some ingress →
    s.delivered.lookup key = some ingress.version

theorem lookup_delivered_ne {key : ObjectKey} {e : ObjectKey × Version} (h : key ≠ e.1) :
    (e :: delivered).lookup key = delivered.lookup key := by
  have hbeq : (key == e.1) = false := beq_false_of_ne h
  rw [List.lookup_cons, hbeq]

theorem lookup_delivered_self (e : ObjectKey × Version) :
    (e :: delivered).lookup e.1 = some e.2 := by
  rw [List.lookup_cons, beq_self_eq_true]

theorem Tracks.absorb (h : Tracks s) (result : ObjectKey × Version) :
    Tracks (absorb s result) := by
  intro key ingress hlookup
  show (result :: s.delivered).lookup key = some ingress.version
  replace hlookup : (updateStatus s.cache result).lookup key = some ingress := hlookup
  unfold updateStatus at hlookup
  by_cases hkey : key = result.1
  · subst hkey
    split at hlookup
    · next hnone =>
      rw [hnone] at hlookup
      cases hlookup
    · rw [AList.lookup_insert] at hlookup
      obtain rfl := Option.some.inj hlookup
      exact lookup_delivered_self result
  · rw [lookup_delivered_ne hkey]
    apply h
    split at hlookup
    · exact hlookup
    · rwa [AList.lookup_insert_ne hkey] at hlookup

theorem Tracks.foldl_absorb (h : Tracks s) (results : List (ObjectKey × Version)) :
    Tracks (results.foldl Status.absorb s) := by
  induction results generalizing s with
  | nil => exact h
  | cons result results ih => exact ih (h.absorb result)

theorem Tracks.applyEvent (h : Tracks s) {action : WatchAction} {key : ObjectKey}
    {ingress : Ingress} {room : Bool}
    (htaken : (Label.event action key ingress room).taken = true) :
    Tracks (applyEvent s action key ingress room) := by
  intro key' ingress' hlookup
  show ((key, ingress.version) :: s.delivered).lookup key' = some ingress'.version
  by_cases hkey : key' = key
  · subst hkey
    cases action with
    | upsert =>
      obtain rfl : room = true := htaken
      replace hlookup : (s.cache.insert key' ingress).lookup key' = some ingress' := hlookup
      rw [AList.lookup_insert] at hlookup
      obtain rfl := Option.some.inj hlookup
      exact lookup_delivered_self (key', ingress.version)
    | delete =>
      replace hlookup : (s.cache.erase key').lookup key' = some ingress' := hlookup
      rw [AList.lookup_erase] at hlookup
      cases hlookup
  · have hskip : ((key, ingress.version) :: s.delivered).lookup key' = s.delivered.lookup key' :=
      lookup_delivered_ne hkey
    rw [hskip]
    apply h
    cases action with
    | upsert =>
      obtain rfl : room = true := htaken
      exact (AList.lookup_insert_ne hkey).symm.trans hlookup
    | delete => exact (AList.lookup_erase_ne hkey).symm.trans hlookup

/-- **Step lemma** for the cached versions. -/
theorem Tracks.step {o : Options} {s s' : State} {l : Label} (htaken : l.taken = true)
    (h : Tracks s) (hstep : (machine o).step s l = some s') : Tracks s' := by
  cases l with
  | sync admitted =>
    obtain rfl := Option.some.inj hstep
    exact h
  | start key =>
    obtain ⟨-, hstep⟩ := Option.ite_none_right_eq_some.mp hstep
    obtain ⟨request, -, rfl⟩ := Option.map_eq_some_iff.mp hstep
    exact h
  | complete key base outcome =>
    obtain ⟨-, hstep⟩ := Option.ite_none_right_eq_some.mp hstep
    obtain rfl := Option.some.inj hstep
    cases outcome <;> exact h
  | crash key base =>
    obtain ⟨-, hstep⟩ := Option.ite_none_right_eq_some.mp hstep
    obtain rfl := Option.some.inj hstep
    exact h
  | foldBack =>
    obtain rfl := Option.some.inj hstep
    exact h.foldl_absorb s.results
  | event action key ingress room =>
    obtain rfl := Option.some.inj hstep
    exact h.applyEvent htaken

/-- The events and responses of each object reached the cache in the order in which the
    server produced them. The response of a patch and the event of it are one version. -/
def InSequence (delivered : List (ObjectKey × Version)) : Prop :=
  delivered.Pairwise fun later earlier =>
    later.1 = earlier.1 → earlier.2.order ≤ later.2.order

instance (delivered : List (ObjectKey × Version)) : Decidable (InSequence delivered) :=
  inferInstanceAs (Decidable (List.Pairwise _ _))

theorem InSequence.latest (h : InSequence delivered) {key : ObjectKey} {version : Version}
    (hlookup : delivered.lookup key = some version) :
    ∀ e ∈ delivered, e.1 = key → e.2.order ≤ version.order := by
  induction delivered with
  | nil => cases hlookup
  | cons first delivered ih =>
    obtain ⟨hfirst, hrest⟩ := List.pairwise_cons.mp h
    intro e he hkey
    by_cases hk : key = first.1
    · subst hk
      rw [lookup_delivered_self] at hlookup
      obtain rfl := Option.some.inj hlookup
      rcases List.mem_cons.mp he with rfl | he
      · exact le_rfl
      · exact hfirst e he hkey.symm
    · rw [lookup_delivered_ne hk] at hlookup
      rcases List.mem_cons.mp he with rfl | he
      · exact absurd hkey.symm hk
      · exact ih hrest hlookup e he hkey

/-- **Status reports.** In every run at most one patch of an Ingress is in flight, and after a
    synchronisation the queue holds work for live selected Ingresses, one entry each. A patch
    changes the gateway's own entry only. If the events and responses of each object reach
    the cache in the server's order, and none finds it full, then with nothing left to fold back
    each cached version is the latest one received. -/
theorem status_reporting {o : Options} {ls : List Label} {s : State}
    (hrun : (machine o).run initial ls = some s) :
    (s.tasks.map (·.1)).Nodup ∧
    (s.queued.keys.Nodup ∧
      (s.synced = true → ∀ key ∈ s.queued.keys, Live o s.cache key)) ∧
    (∀ current desired, (patchBody o.address current desired).1 = current.resourceVersion ∧
      (patchBody o.address current desired).2.any (carries o.address) = (desired == .add) ∧
      (patchBody o.address current desired).2.filter (fun item => !carries o.address item) =
        current.entries.filter fun item => !carries o.address item) ∧
    ((∀ l ∈ ls, l.taken = true) → InSequence s.delivered → s.results = [] →
      ∀ key ingress, s.cache.lookup key = some ingress → (key, ingress.version) ∈ s.delivered ∧
        ∀ e ∈ s.delivered, e.1 = key → e.2.order ≤ ingress.version.order) := by
  have hsafe : Safe o s :=
    Machine.run_invariant (fun _ _ _ h hstep => h.step hstep) (safe_initial o) hrun
  refine ⟨hsafe.tasks, ⟨s.queued.keys_nodup, ?_⟩, ?_, ?_⟩
  · intro hsynced key hkey
    obtain ⟨request, hrequest⟩ := Option.isSome_iff_exists.mp
      (AList.lookup_isSome.mpr (AList.mem_keys.mpr hkey))
    exact hsafe.queued hsynced key request hrequest
  · intro current desired
    exact ⟨rfl, any_mergeEntries _ _ _, mergeEntries_others _ _ _⟩
  · intro htaken hsequence _ key ingress hlookup
    -- only here do the labels matter: nothing may find the cache full
    have htracks : Tracks s := Machine.run_invariant_of_labels Tracks (·.taken = true)
      (fun _ _ _ htaken h hstep => h.step htaken hstep) htaken (by simp [Tracks, initial]) hrun
    have hlast := htracks key ingress hlookup
    obtain ⟨newer, older, hdelivered, -⟩ := List.lookup_eq_some_iff.mp hlast
    refine ⟨?_, hsequence.latest hlast⟩
    rw [hdelivered]
    exact List.mem_append_right _ List.mem_cons_self

/-! ## A late response -/

namespace Sample

def options : Options := ⟨ascii "hangang", ascii "gateway", 8⟩

def key : ObjectKey := (ascii "blue", ascii "main")

def ingress (order : Nat) (entries : List Json) : Ingress :=
  ⟨some (ascii "hangang"), ⟨order, [UInt8.ofNat order], entries⟩⟩

/-- The address is added, and another writer removes it: the event of that overtakes the
    response of the patch. -/
def overtaken : List Label :=
  [.event .upsert key (ingress 1 []) true, .sync (some [key]), .start key,
    .complete key ([1], .add) (some (ingress 2 [addressEntry (ascii "gateway")]).version),
    .event .upsert key (ingress 3 []) true, .foldBack, .sync (some [key])]

/-- Whether nothing is queued, in flight or to be folded back. -/
def quiet (s : State) : Bool :=
  s.queued.size == 0 && s.inFlight.size == 0 && s.tasks.isEmpty && s.results.isEmpty

/-- **The cache falls back to the response**: nothing is left to do, and version 2 is cached
    although the event of version 3 was received. -/
theorem response_hides_event :
    ((machine options).run initial overtaken).map (fun s => (quiet s,
      (s.cache.lookup key).map (·.version.order), s.delivered.map (·.2.order))) =
    some (true, some 2, [2, 3, 1]) := by
  decide +kernel

/-- Without the other writer; the patch's own event follows its response. -/
def undisturbed : List Label :=
  overtaken.take 4 ++ [.foldBack,
    .event .upsert key (ingress 2 [addressEntry (ascii "gateway")]) true, .sync (some [key])]

theorem status_reporting_in_order :
    ∃ s, (machine options).run initial undisturbed = some s ∧ s.results = [] ∧
      s.delivered.length = 3 ∧ ∀ ingress, s.cache.lookup key = some ingress →
        ∀ e ∈ s.delivered, e.1 = key → e.2.order ≤ ingress.version.order := by
  have hsome : ((machine options).run initial undisturbed).isSome = true := by decide +kernel
  obtain ⟨s, hs⟩ := Option.isSome_iff_exists.mp hsome
  have hfacts : ((machine options).run initial undisturbed).all (fun s =>
      s.results.isEmpty && decide (s.delivered.length = 3 ∧ InSequence s.delivered)) = true := by
    decide +kernel
  rw [hs, Option.all_some, Bool.and_eq_true, List.isEmpty_iff, decide_eq_true_eq] at hfacts
  obtain ⟨hresults, hlength, hsequence⟩ := hfacts
  refine ⟨s, hs, hresults, hlength, fun ingress hlookup => ?_⟩
  exact ((status_reporting hs).2.2.2 (by decide) hsequence hresults key ingress hlookup).2

end Sample

end Status

end Kubernetes
