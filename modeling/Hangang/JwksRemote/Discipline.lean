import Hangang.Framework.Bytes
import Hangang.Framework.Table
import Hangang.Framework.Threads

/-! # How Remote Keys Are Fetched

    The model of `RemoteJwksProvider::key` in `jwks_remote.rs`. A call that finds the
    cache stale fetches the key set itself, if no other call does. The flag of the
    fetch, the cooldown and the cache are taken one after the other around an await
    at which the call may be dropped; each access to them is a step of its own here.
    Times are nanoseconds of the monotonic clock.

    The shared state also has the fetches that were started so far, each with the
    set that it published if it has; and each answer the clock reading it was decided
    with and the number of fetches that had been started by then.

    * **Discipline**: one fetch at a time, and a cooldown between two starts.
    * **Currency**: keys come from a set whose fetch began within the lifetime, and
      the cache holds the newest set there is.
    * **Unknown keys** are called so on the word of the last fetch. -/

open Bytes

namespace JwksFetch

/-! ## Key sets -/

inductive JwtAlgorithm where
  | rs256
  | ps256
  | es256
  | edDSA
deriving DecidableEq

structure PreparedKey where
  algorithm : JwtAlgorithm
  key : Bytes
  publicJwkFingerprint : Bytes
deriving DecidableEq

abbrev PreparedKeys : Type := Table Bytes PreparedKey

structure KeyRequest where
  kid : Bytes
  algorithm : JwtAlgorithm

/-- `PreparedKeys::get_for`. -/
def getFor (keys : PreparedKeys) (request : KeyRequest) : Option PreparedKey :=
  (keys.lookup request.kid).filter fun key => key.algorithm = request.algorithm

/-- `PreparedKeys::reuse_unchanged`. -/
def reuseUnchanged (keys previous : PreparedKeys) : PreparedKeys :=
  keys.mapValues fun kid current =>
    ((previous.lookup kid).filter fun old => current.algorithm = old.algorithm ∧
      current.publicJwkFingerprint = old.publicJwkFingerprint).getD current

/-! ## The cache -/

/-- The settings that `key` reads. -/
structure RemoteJwksConfig where
  cacheTtlSeconds : Nat
  refreshCooldownSeconds : Nat

def second : Nat := 1000000000

def millisecond : Nat := 1000000

def RemoteJwksConfig.ttl (config : RemoteJwksConfig) : Nat := second * config.cacheTtlSeconds

def RemoteJwksConfig.cooldown (config : RemoteJwksConfig) : Nat :=
  second * config.refreshCooldownSeconds

inductive RemoteKeyError where
  | unknownKey
  | unavailable
deriving DecidableEq

structure Cache where
  keys : Option PreparedKeys
  refreshAfter : Nat
  expiresAt : Nat
  nextRefreshAt : Nat
  lastRefreshFailed : Bool

/-- `cached_key`. -/
def cachedKey (cache : Cache) (request : KeyRequest) (now : Nat) : Option PreparedKey :=
  if cache.expiresAt ≤ now then none else cache.keys.bind (getFor · request)

/-- `cooled_down_error`. -/
def cooledDownError (cache : Cache) (now : Nat) : RemoteKeyError :=
  if now < cache.expiresAt ∧ cache.lastRefreshFailed = false then .unknownKey else .unavailable

/-- `ok_or`. -/
def okOr (found : Option PreparedKey) (e : RemoteKeyError) : Except RemoteKeyError PreparedKey :=
  found.elim (.error e) .ok

/-- The check of the cache that `key` makes before it competes for the fetch, and again once it
    has won. -/
def answerFromCache (cache : Cache) (request : KeyRequest) (now : Nat) :
    Option (Except RemoteKeyError PreparedKey) :=
  if (cachedKey cache request now).isSome ∧ (now < cache.refreshAfter ∨ now < cache.nextRefreshAt)
  then some (okOr (cachedKey cache request now) .unavailable)
  else if now < cache.nextRefreshAt then some (.error (cooledDownError cache now))
  else none

/-! ## Calls -/

structure Fetch where
  started : Nat
  keys : Option PreparedKeys

structure Shared where
  clock : Nat
  created : Nat
  cache : Cache
  fetching : Bool
  holder : Option Nat
  fetches : List Fetch

/-- `RemoteJwksProvider::new`. -/
def Shared.new (now : Nat) : Shared := ⟨now, now, ⟨none, now, now, now, false⟩, false, none, []⟩

/-- An answer, the reading of the clock and the number of fetches started when it was decided. -/
structure Answer where
  result : Except RemoteKeyError PreparedKey
  now : Nat
  seen : Nat

/-- Where a call of `key` is. From `won` to `releasing` it holds the flag of the fetch. -/
inductive Call where
  | entering (request : KeyRequest)
  | lookup (request : KeyRequest) (now : Nat)
  | compete (request : KeyRequest)
  | lost (request : KeyRequest)
  | won (request : KeyRequest)
  | starting (request : KeyRequest)
  | reserving (request : KeyRequest) (started : Nat)
  | awaiting (request : KeyRequest) (index started : Nat)
  | fetched (request : KeyRequest) (index started : Nat) (outcome : Option PreparedKeys)
  | settling (request : KeyRequest) (index started : Nat) (outcome : Option PreparedKeys)
      (now : Nat)
  | releasing (request : KeyRequest) (answer : Answer)
  | returned (request : KeyRequest) (answer : Answer)
  | cancelled

/-- What a call does not decide itself: how the fetch ends, and whether the future is dropped
    at the await. -/
inductive Choice where
  | go
  | fetch (outcome : Option PreparedKeys)
  | cancel

def Shared.answer (s : Shared) (result : Except RemoteKeyError PreparedKey) (now : Nat) : Answer :=
  ⟨result, now, s.fetches.length⟩

/-- The cooldown is reserved before the await. -/
def Shared.reserve (config : RemoteJwksConfig) (s : Shared) (started : Nat) : Shared :=
  { s with
    cache := { s.cache with
      nextRefreshAt := started + config.cooldown, lastRefreshFailed := true }
    fetches := s.fetches ++ [⟨started, none⟩] }

/-- A set is published. -/
def Shared.publish (config : RemoteJwksConfig) (s : Shared) (index started now : Nat)
    (keys : PreparedKeys) : Shared :=
  { s with
    cache :=
      { keys := some keys
        refreshAfter := started + millisecond * (1000 * config.cacheTtlSeconds / 2)
        expiresAt := started + config.ttl
        nextRefreshAt := now + config.cooldown
        lastRefreshFailed := false }
    fetches := s.fetches.set index ⟨started, some keys⟩ }

/-- The end of a fetch that publishes nothing. -/
def Shared.fail (config : RemoteJwksConfig) (s : Shared) (now : Nat) : Shared :=
  { s with
    cache := { s.cache with nextRefreshAt := now + config.cooldown, lastRefreshFailed := true } }

/-- The end of `key`, under the lock. -/
def settle (config : RemoteJwksConfig) (s : Shared) (request : KeyRequest)
    (index started : Nat) (outcome : Option PreparedKeys) (now : Nat) : Shared × Answer :=
  match outcome.filter fun _ => now < started + config.ttl with
  | some keys =>
    let keys := s.cache.keys.elim keys (reuseUnchanged keys)
    let s := s.publish config index started now keys
    (s, s.answer (okOr (getFor keys request) .unknownKey) now)
  | none =>
    let s := s.fail config now
    (s, s.answer (okOr (cachedKey s.cache request now) .unavailable) now)

def Shared.release (s : Shared) : Shared := { s with fetching := false, holder := none }

/-- One access of a call. -/
def advance (config : RemoteJwksConfig) (tid : Nat) (s : Shared) :
    Call → Choice → Option (Shared × Call)
  | .entering request, .go =>
    if request.kid = [] ∨ 128 < request.kid.length then
      some (s, .returned request (s.answer (.error .unknownKey) s.clock))
    else some (s, .lookup request s.clock)
  | .lookup request now, .go =>
    some (s, (answerFromCache s.cache request now).elim (.compete request) fun result =>
      .returned request (s.answer result now))
  | .compete request, .go =>
    if s.fetching then some (s, .lost request)
    else some ({ s with fetching := true, holder := some tid }, .won request)
  | .lost request, .go =>
    some (s, .returned request
      (s.answer (okOr (cachedKey s.cache request s.clock) .unavailable) s.clock))
  | .won request, .go =>
    some (s, (answerFromCache s.cache request s.clock).elim (.starting request) fun result =>
      .releasing request (s.answer result s.clock))
  | .starting request, .go => some (s, .reserving request s.clock)
  | .reserving request started, .go =>
    some (s.reserve config started, .awaiting request s.fetches.length started)
  | .awaiting request index started, .fetch outcome =>
    some (s, .fetched request index started outcome)
  | .awaiting _ _ _, .cancel => some (s.release, .cancelled)
  | .fetched request index started outcome, .go =>
    some (s, .settling request index started outcome s.clock)
  | .settling request index started outcome now, .go =>
    let settled := settle config s request index started outcome now
    some (settled.1, .releasing request settled.2)
  | .releasing request answer, .go => some (s.release, .returned request answer)
  | _, _ => none

def program (config : RemoteJwksConfig) : Program Shared Call KeyRequest Choice Nat where
  start request := some (.entering request)
  advance := advance config
  tick s elapsed := some { s with clock := s.clock + elapsed }

/-! ## Assertions -/

/-- A key id that `key` turns down at once. -/
def KeyRequest.Refused (request : KeyRequest) : Prop := request.kid = [] ∨ 128 < request.kid.length

/-- What an answer rests on. A key is in a set that a fetch of the last `ttl` has published. A
    key is unknown if the last fetch that had been started has published a set without it, less
    than the lifetime after its start. -/
structure Answer.Valid (config : RemoteJwksConfig) (fetches : List Fetch) (request : KeyRequest)
    (answer : Answer) : Prop where
  found : ∀ key, answer.result = .ok key → ∃ f ∈ fetches, ∃ keys, f.keys = some keys ∧
    getFor keys request = some key ∧ answer.now < f.started + config.ttl
  unknown : answer.result = .error .unknownKey → request.Refused ∨
    ∃ index f keys, index + 1 = answer.seen ∧ fetches[index]? = some f ∧ f.keys = some keys ∧
      getFor keys request = none ∧ answer.now < f.started + config.ttl

/-- The cached set is the result of a fetch, and no later fetch has one. -/
def Newest (config : RemoteJwksConfig) (s : Shared) (keys : PreparedKeys) : Prop :=
  ∃ index f, s.fetches[index]? = some f ∧ f.keys = some keys ∧
    s.cache.expiresAt = f.started + config.ttl ∧
    (∀ j g, s.fetches[j]? = some g → g.keys.isSome = true → j ≤ index) ∧
    (s.cache.lastRefreshFailed = false → index + 1 = s.fetches.length)

structure Glob (config : RemoteJwksConfig) (s : Shared) : Prop where
  flag : s.fetching = s.holder.isSome
  starts : (s.fetches.map Fetch.started).Pairwise fun a b => a + config.cooldown ≤ b
  reserved : ∀ f ∈ s.fetches, f.started + config.cooldown ≤ s.cache.nextRefreshAt
  past : ∀ f ∈ s.fetches, f.started ≤ s.clock
  created : s.created ≤ s.clock
  empty : s.cache.keys = none → s.cache.expiresAt ≤ s.created
  cached : ∀ keys, s.cache.keys = some keys → Newest config s keys

/-- The fetch of a call is the last one, and has no result. -/
def Running (s : Shared) (index started : Nat) : Prop :=
  index + 1 = s.fetches.length ∧ s.fetches[index]? = some ⟨started, none⟩

def CallOk (config : RemoteJwksConfig) (tid : Nat) (s : Shared) : Call → Prop
  | .lookup _ now => s.created ≤ now ∧ now ≤ s.clock
  | .won _ => s.holder = some tid
  | .starting _ => s.holder = some tid ∧ s.cache.nextRefreshAt ≤ s.clock
  | .reserving _ started =>
    s.holder = some tid ∧ s.cache.nextRefreshAt ≤ started ∧ started ≤ s.clock
  | .awaiting _ index started => s.holder = some tid ∧ Running s index started
  | .fetched _ index started _ => s.holder = some tid ∧ Running s index started
  | .settling _ index started _ now =>
    s.holder = some tid ∧ Running s index started ∧ (∀ f ∈ s.fetches, f.started ≤ now) ∧
      s.created ≤ now
  | .releasing request answer => s.holder = some tid ∧ answer.Valid config s.fetches request
  | .returned request answer => answer.Valid config s.fetches request
  | _ => True

/-! ## Answers -/

variable {config : RemoteJwksConfig} {s s' : Shared} {request : KeyRequest} {now : Nat}

/-- The results of fetches stay. -/
def Grows (fetches fetches' : List Fetch) : Prop :=
  ∀ (i : Nat) (f : Fetch), fetches[i]? = some f → f.keys.isSome = true → fetches'[i]? = some f

theorem Answer.Valid.mono {fetches fetches' : List Fetch} {answer : Answer}
    (h : answer.Valid config fetches request) (hgrows : Grows fetches fetches') :
    answer.Valid config fetches' request := by
  constructor
  · intro key hkey
    obtain ⟨f, hf, keys, hkeys, hrest⟩ := h.found key hkey
    obtain ⟨i, hi⟩ := List.getElem?_of_mem hf
    have hi' := hgrows i f hi (by rw [hkeys]; rfl)
    exact ⟨f, List.mem_of_getElem? hi', keys, hkeys, hrest⟩
  · intro hunknown
    refine (h.unknown hunknown).imp_right fun hset => ?_
    obtain ⟨index, f, keys, hindex, hf, hkeys, hrest⟩ := hset
    exact ⟨index, f, keys, hindex, hgrows index f hf (by rw [hkeys]; rfl), hkeys, hrest⟩

theorem valid_unavailable (fetches : List Fetch) (now seen : Nat) :
    Answer.Valid config fetches request ⟨.error .unavailable, now, seen⟩ :=
  ⟨fun _ h => (by cases h), fun h => by cases h⟩

/-- A key from the cache comes from a set of the last `ttl`. -/
theorem valid_cachedKey (hglob : Glob config s) (now : Nat) :
    (s.answer (okOr (cachedKey s.cache request now) .unavailable) now).Valid config s.fetches
      request := by
  cases hkey : cachedKey s.cache request now with
  | none => exact valid_unavailable s.fetches now _
  | some key =>
    refine ⟨?_, fun h => by cases h⟩
    intro key' hkey'
    obtain rfl := Except.ok.inj hkey'
    obtain ⟨hfresh, hkey⟩ := Option.ite_none_left_eq_some.mp hkey
    obtain ⟨keys, hkeys, hget⟩ := Option.bind_eq_some_iff.mp hkey
    obtain ⟨index, f, hf, hfkeys, hexpires, -⟩ := hglob.cached keys hkeys
    refine ⟨f, List.mem_of_getElem? hf, keys, hfkeys, hget, ?_⟩
    rw [← hexpires]
    exact Nat.lt_of_not_le hfresh

/-- Within the cooldown a key is called unknown only on the word of the last fetch. -/
theorem valid_cooledDown (hglob : Glob config s) (hnow : s.created ≤ now)
    (hkey : cachedKey s.cache request now = none) :
    (s.answer (.error (cooledDownError s.cache now)) now).Valid config s.fetches request := by
  unfold cooledDownError
  split
  · next hfresh =>
    refine ⟨fun _ h => (by cases h), fun _ => .inr ?_⟩
    cases hkeys : s.cache.keys with
    | none =>
      have hexpires := hglob.empty hkeys
      omega
    | some keys =>
      obtain ⟨index, f, hf, hfkeys, hexpires, -, hlast⟩ := hglob.cached keys hkeys
      have hget : getFor keys request = none := by
        simpa [cachedKey, Nat.not_le.mpr hfresh.1, hkeys] using hkey
      exact ⟨index, f, keys, hlast hfresh.2, hf, hfkeys, hget, hexpires ▸ hfresh.1⟩
  · exact valid_unavailable s.fetches now _

theorem valid_answerFromCache (hglob : Glob config s) (hnow : s.created ≤ now)
    {result : Except RemoteKeyError PreparedKey}
    (h : answerFromCache s.cache request now = some result) :
    (s.answer result now).Valid config s.fetches request := by
  unfold answerFromCache at h
  split at h
  · obtain rfl := Option.some.inj h
    exact valid_cachedKey hglob now
  · next hnone =>
    split at h
    · next hcooldown =>
      obtain rfl := Option.some.inj h
      apply valid_cooledDown hglob hnow
      cases hkey : cachedKey s.cache request now with
      | none => rfl
      | some key => exact absurd ⟨by rw [hkey]; rfl, .inr hcooldown⟩ hnone
    · cases h

theorem nextRefreshAt_of_answerFromCache (h : answerFromCache s.cache request now = none) :
    s.cache.nextRefreshAt ≤ now := by
  unfold answerFromCache at h
  split at h
  · cases h
  · split at h
    · cases h
    · next hcooldown => exact Nat.le_of_not_lt hcooldown

/-! ## The steps of the call that fetches -/

variable {started index tid : Nat}

/-- A start is a cooldown behind those before it. -/
theorem glob_reserve (hglob : Glob config s) (hnext : s.cache.nextRefreshAt ≤ started)
    (hstarted : started ≤ s.clock) :
    Glob config (s.reserve config started) := by
  have hbefore : ∀ f ∈ s.fetches, f.started + config.cooldown ≤ started :=
    fun f hf => Nat.le_trans (hglob.reserved f hf) hnext
  refine ⟨hglob.flag, ?_, ?_, ?_, hglob.created, hglob.empty, ?_⟩
  · simp only [Shared.reserve, List.map_append, List.map_cons, List.map_nil, List.pairwise_append]
    refine ⟨hglob.starts, List.pairwise_singleton _ _, ?_⟩
    intro a ha b hb
    obtain ⟨f, hf, rfl⟩ := List.mem_map.mp ha
    rw [List.mem_singleton.mp hb]
    exact hbefore f hf
  · intro f hf
    rcases List.mem_append.mp hf with hf | hf
    · exact Nat.le_trans (hbefore f hf) (Nat.le_add_right _ _)
    · rw [List.mem_singleton.mp hf]
      exact Nat.le_refl _
  · intro f hf
    rcases List.mem_append.mp hf with hf | hf
    · exact hglob.past f hf
    · rw [List.mem_singleton.mp hf]
      exact hstarted
  · intro keys hkeys
    obtain ⟨index, f, hf, hfkeys, hexpires, hnewest, -⟩ := hglob.cached keys hkeys
    refine ⟨index, f, ?_, hfkeys, hexpires, ?_, fun h => by cases h⟩
    · exact (List.getElem?_append_left (List.getElem?_eq_some_iff.mp hf).1).trans hf
    · intro j g hg hsome
      rcases Nat.lt_or_ge j s.fetches.length with hj | hj
      · exact hnewest j g ((List.getElem?_append_left hj).symm.trans hg) hsome
      · -- the new fetch has no result
        have hg := List.mem_of_getElem? ((List.getElem?_append_right hj).symm.trans hg)
        rw [List.mem_singleton.mp hg] at hsome
        cases hsome

/-- A set is published by the last fetch. -/
theorem glob_publish (hglob : Glob config s) (keys : PreparedKeys)
    (hrunning : Running s index started) (hnow : ∀ f ∈ s.fetches, f.started ≤ now) :
    Glob config (s.publish config index started now keys) := by
  obtain ⟨hlast, hentry⟩ := hrunning
  have hlt : index < s.fetches.length := by omega
  -- the entry of the fetch is completed; the starts are as before
  have hstarts : (s.fetches.set index ⟨started, some keys⟩).map Fetch.started =
      s.fetches.map Fetch.started := by
    apply List.ext_getElem?
    intro j
    rw [List.getElem?_map, List.getElem?_map]
    by_cases hj : index = j
    · rw [← hj, List.getElem?_set_self hlt, hentry]
      rfl
    · rw [List.getElem?_set_ne hj]
  have hmem : ∀ f ∈ s.fetches.set index ⟨started, some keys⟩, ∃ g ∈ s.fetches,
      f.started = g.started := by
    intro f hf
    rcases List.mem_or_eq_of_mem_set hf with hf | rfl
    · exact ⟨f, hf, rfl⟩
    · exact ⟨_, List.mem_of_getElem? hentry, rfl⟩
  refine ⟨hglob.flag, ?_, ?_, ?_, hglob.created, fun h => (by cases h), ?_⟩
  · show ((s.fetches.set index _).map Fetch.started).Pairwise _
    rw [hstarts]
    exact hglob.starts
  · intro f hf
    obtain ⟨g, hg, hstarted⟩ := hmem f hf
    rw [hstarted]
    exact Nat.add_le_add_right (hnow g hg) _
  · intro f hf
    obtain ⟨g, hg, hstarted⟩ := hmem f hf
    rw [hstarted]
    exact hglob.past g hg
  · intro keys' hkeys'
    obtain rfl := Option.some.inj hkeys'
    refine ⟨index, _, List.getElem?_set_self hlt, rfl, rfl, ?_, ?_⟩
    -- the fetch is the last one, so that no later one exists
    · intro j g hg _
      have hj : j < (s.fetches.set index ⟨started, some keys⟩).length :=
        (List.getElem?_eq_some_iff.mp hg).1
      rw [List.length_set] at hj
      omega
    · intro _
      show index + 1 = (s.fetches.set index ⟨started, some keys⟩).length
      rw [List.length_set, hlast]

theorem glob_fail (hglob : Glob config s) (hnow : ∀ f ∈ s.fetches, f.started ≤ now) :
    Glob config (s.fail config now) := by
  refine ⟨hglob.flag, hglob.starts, ?_, hglob.past, hglob.created, hglob.empty, ?_⟩
  · intro f hf
    exact Nat.add_le_add_right (hnow f hf) _
  · intro keys hkeys
    obtain ⟨index, f, hf, hfkeys, hexpires, hnewest, -⟩ := hglob.cached keys hkeys
    exact ⟨index, f, hf, hfkeys, hexpires, hnewest, fun h => by cases h⟩

theorem getElem?_set_of_running (hrunning : Running s index started) (keys : PreparedKeys) :
    Grows s.fetches (s.fetches.set index ⟨started, some keys⟩) := by
  intro i f hf hsome
  by_cases hi : index = i
  · subst hi
    rw [hrunning.2] at hf
    rw [← Option.some.inj hf] at hsome
    cases hsome
  · rw [List.getElem?_set_ne hi, hf]

theorem valid_publish (keys : PreparedKeys) (hrunning : Running s index started)
    (hfresh : now < started + config.ttl) :
    ((s.publish config index started now keys).answer
      (okOr (getFor keys request) .unknownKey) now).Valid config
        (s.publish config index started now keys).fetches request := by
  have hlt : index < s.fetches.length := Nat.lt_of_succ_le (Nat.le_of_eq hrunning.1)
  have hentry : (s.publish config index started now keys).fetches[index]? =
      some ⟨started, some keys⟩ := List.getElem?_set_self hlt
  cases hget : getFor keys request with
  | none =>
    refine ⟨fun _ h => (by cases h), fun _ => .inr ⟨index, _, keys, ?_, hentry, rfl, hget, hfresh⟩⟩
    show index + 1 = (s.fetches.set index _).length
    rw [List.length_set, hrunning.1]
  | some key =>
    refine ⟨?_, fun h => (by cases h)⟩
    intro key' hkey'
    obtain rfl := Except.ok.inj hkey'
    exact ⟨_, List.mem_of_getElem? hentry, keys, rfl, hget, hfresh⟩

/-- The end of a fetch, whatever came of it. -/
theorem settle_spec (hglob : Glob config s) (hrunning : Running s index started)
    (hnow : ∀ f ∈ s.fetches, f.started ≤ now) (outcome : Option PreparedKeys)
    {settled : Shared × Answer} (h : settle config s request index started outcome now = settled) :
    Glob config settled.1 ∧ Grows s.fetches settled.1.fetches ∧
      settled.2.Valid config settled.1.fetches request ∧
      settled.1.holder = s.holder ∧ settled.1.clock = s.clock ∧ settled.1.created = s.created := by
  unfold settle at h
  split at h
  · next keys hkeys =>
    have hfresh : now < started + config.ttl := by
      simpa using (Option.filter_eq_some_iff.mp hkeys).2
    rw [← h]
    exact ⟨glob_publish hglob _ hrunning hnow, getElem?_set_of_running hrunning _,
      valid_publish _ hrunning hfresh, rfl, rfl, rfl⟩
  · have hglob' := glob_fail hglob hnow
    rw [← h]
    exact ⟨hglob', fun _ _ h _ => h, valid_cachedKey hglob' now, rfl, rfl, rfl⟩

/-! ## The outline -/

/-- What a step of a call does to the others. -/
structure Effect (tid : Nat) (s s' : Shared) : Prop where
  clock : s'.clock = s.clock
  created : s'.created = s.created
  grows : Grows s.fetches s'.fetches
  frame : s' = s ∨ s.holder = none ∨ s.holder = some tid

theorem Effect.refl (tid : Nat) (s : Shared) : Effect tid s s :=
  ⟨rfl, rfl, fun _ _ h _ => h, .inl rfl⟩

theorem Effect.of_release (hholder : s.holder = some tid) : Effect tid s s.release :=
  ⟨rfl, rfl, fun _ _ h _ => h, .inr (.inr hholder)⟩

theorem glob_release (hglob : Glob config s) : Glob config s.release :=
  ⟨rfl, hglob.starts, hglob.reserved, hglob.past, hglob.created, hglob.empty, hglob.cached⟩

variable {call : Call}

/-- **A step of a call** keeps the assertions, and touches what others hold only with the flag
    in hand. -/
theorem advance_spec {call' : Call} {choice : Choice} (hglob : Glob config s)
    (hok : CallOk config tid s call) (h : advance config tid s call choice = some (s', call')) :
    Glob config s' ∧ CallOk config tid s' call' ∧ Effect tid s s' := by
  have hself : ∀ {c : Call}, CallOk config tid s c →
      Glob config s ∧ CallOk config tid s c ∧ Effect tid s s :=
    fun hc => ⟨hglob, hc, Effect.refl tid s⟩
  unfold advance at h
  split at h
  · next request =>
    -- entering
    split at h
    · next hrefused =>
      obtain ⟨rfl, rfl⟩ := Prod.mk.inj (Option.some.inj h)
      exact hself ⟨fun _ h => (by cases h), fun _ => .inl hrefused⟩
    · obtain ⟨rfl, rfl⟩ := Prod.mk.inj (Option.some.inj h)
      exact hself ⟨hglob.created, Nat.le_refl _⟩
  · next request now =>
    obtain ⟨rfl, rfl⟩ := Prod.mk.inj (Option.some.inj h)
    cases hanswer : answerFromCache s.cache request now with
    | none => exact hself trivial
    | some result => exact hself (valid_answerFromCache hglob hok.1 hanswer)
  · -- compete
    split at h
    · obtain ⟨rfl, rfl⟩ := Prod.mk.inj (Option.some.inj h)
      exact hself trivial
    · next hfree =>
      obtain ⟨rfl, rfl⟩ := Prod.mk.inj (Option.some.inj h)
      have hnone : s.holder = none := by
        have hflag := hglob.flag
        rw [Bool.not_eq_true] at hfree
        rw [hfree] at hflag
        exact Option.isNone_iff_eq_none.mp (by simpa using hflag.symm)
      refine ⟨⟨rfl, hglob.starts, hglob.reserved, hglob.past, hglob.created, hglob.empty,
        hglob.cached⟩, rfl, rfl, rfl, fun _ _ h _ => h, .inr (.inl hnone)⟩
  · -- lost
    obtain ⟨rfl, rfl⟩ := Prod.mk.inj (Option.some.inj h)
    exact hself (valid_cachedKey hglob s.clock)
  · next request =>
    -- won
    obtain ⟨rfl, rfl⟩ := Prod.mk.inj (Option.some.inj h)
    cases hanswer : answerFromCache s.cache request s.clock with
    | none => exact hself ⟨hok, nextRefreshAt_of_answerFromCache hanswer⟩
    | some result => exact hself ⟨hok, valid_answerFromCache hglob hglob.created hanswer⟩
  · -- starting
    obtain ⟨rfl, rfl⟩ := Prod.mk.inj (Option.some.inj h)
    exact hself ⟨hok.1, hok.2, Nat.le_refl _⟩
  · next request started =>
    -- reserving
    obtain ⟨rfl, rfl⟩ := Prod.mk.inj (Option.some.inj h)
    obtain ⟨hholder, hnext, hstarted⟩ := hok
    refine ⟨glob_reserve hglob hnext hstarted, ⟨hholder, ?_, ?_⟩, rfl, rfl, ?_, .inr (.inr hholder)⟩
    · simp [Shared.reserve]
    · simp [Shared.reserve]
    · intro i f hf _
      exact (List.getElem?_append_left (List.getElem?_eq_some_iff.mp hf).1).trans hf
  · -- the fetch ends
    obtain ⟨rfl, rfl⟩ := Prod.mk.inj (Option.some.inj h)
    exact hself hok
  · -- the future is dropped
    obtain ⟨rfl, rfl⟩ := Prod.mk.inj (Option.some.inj h)
    exact ⟨glob_release hglob, trivial, Effect.of_release hok.1⟩
  · -- fetched
    obtain ⟨rfl, rfl⟩ := Prod.mk.inj (Option.some.inj h)
    exact hself ⟨hok.1, hok.2, hglob.past, hglob.created⟩
  · next request index started outcome now =>
    -- settling
    obtain ⟨rfl, rfl⟩ := Prod.mk.inj (Option.some.inj h)
    obtain ⟨hholder, hrunning, hnow, -⟩ := hok
    obtain ⟨hglob', hgrows, hvalid, hsame, hclock, hcreated⟩ :=
      settle_spec hglob hrunning hnow outcome rfl
    exact ⟨hglob', ⟨hsame.trans hholder, hvalid⟩, hclock, hcreated, hgrows, .inr (.inr hholder)⟩
  · -- releasing
    obtain ⟨rfl, rfl⟩ := Prod.mk.inj (Option.some.inj h)
    exact ⟨glob_release hglob, hok.2, Effect.of_release hok.1⟩
  · cases h

/-- The call holds the flag of the fetch. -/
def Call.holds : Call → Bool
  | .won _ | .starting _ | .reserving _ _ | .awaiting _ _ _ | .fetched _ _ _ _
  | .settling _ _ _ _ _ | .releasing _ _ => true
  | _ => false

theorem holder_of_holds (hok : CallOk config tid s call) (h : call.holds = true) :
    s.holder = some tid := by
  cases call with
  | won request => exact hok
  | starting request | reserving request started | awaiting request index started
  | fetched request index started outcome | settling request index started outcome now
  | releasing request answer => exact hok.1
  | entering | lookup | compete | lost | returned | cancelled => cases h

/-- The assertion of one call survives the steps of the others. -/
theorem callOk_of_effect {i : Nat} (hi : i ≠ tid) (heffect : Effect tid s s')
    (hok : CallOk config i s call) : CallOk config i s' call := by
  by_cases hholds : call.holds = true
  · -- the flag is this call's, so the step has changed nothing
    have hholder := holder_of_holds hok hholds
    rcases heffect.frame with rfl | hnone | hother
    · exact hok
    · rw [hnone] at hholder
      cases hholder
    · exact absurd (Option.some.inj (hholder.symm.trans hother)) hi
  · cases call with
    | lookup request now =>
      have hok : s.created ≤ now ∧ now ≤ s.clock := hok
      show s'.created ≤ now ∧ now ≤ s'.clock
      rwa [heffect.created, heffect.clock]
    | returned request answer => exact Answer.Valid.mono hok heffect.grows
    | entering | compete | lost | cancelled => trivial
    | won | starting | reserving | awaiting | fetched | settling | releasing =>
      exact absurd rfl hholds

theorem callOk_tick {elapsed : Nat} (hok : CallOk config tid s call) :
    CallOk config tid { s with clock := s.clock + elapsed } call := by
  have hle : ∀ {n : Nat}, n ≤ s.clock → n ≤ s.clock + elapsed :=
    fun h => Nat.le_trans h (Nat.le_add_right _ _)
  cases call with
  | lookup request now => exact ⟨hok.1, hle hok.2⟩
  | starting request => exact ⟨hok.1, hle hok.2⟩
  | reserving request started => exact ⟨hok.1, hok.2.1, hle hok.2.2⟩
  | entering | compete | lost | won | awaiting | fetched | settling | releasing | returned
  | cancelled => exact hok

def outline (config : RemoteJwksConfig) : (program config).Outline fun _ _ => true where
  Glob := Glob config
  Ok := CallOk config
  start _ _ h := by
    obtain rfl := Option.some.inj h
    trivial
  own hglob hok _ h := ⟨(advance_spec hglob hok h).1, (advance_spec hglob hok h).2.1⟩
  interference hi hglob hok _ hother h := callOk_of_effect hi (advance_spec hglob hok h).2.2 hother
  tick := by
    intro s elapsed s' hglob h
    obtain rfl := Option.some.inj h
    refine ⟨⟨hglob.flag, hglob.starts, hglob.reserved, ?_, ?_, hglob.empty, hglob.cached⟩, ?_⟩
    · exact fun f hf => Nat.le_trans (hglob.past f hf) (Nat.le_add_right _ _)
    · exact Nat.le_trans hglob.created (Nat.le_add_right _ _)
    · exact fun i th hok => callOk_tick hok

theorem glob_new (now : Nat) : Glob config (Shared.new now) :=
  ⟨rfl, by simp [Shared.new], by simp [Shared.new], by simp [Shared.new], Nat.le_refl _,
    fun _ => Nat.le_refl _, fun _ h => (by cases h)⟩

theorem holds_of_run {created : Nat} {pool : Pool Shared Call}
    {events : List (Event KeyRequest Choice Nat)}
    (hrun : (program config).machine.run ⟨Shared.new created, []⟩ events = some pool) :
    (outline config).Holds pool := by
  rw [← Program.under_true] at hrun
  exact (outline config).holds_run ((outline config).holds_initial (glob_new created)) hrun

/-- **Fetch discipline**, in every interleaving of calls, dropped or not, and for every outcome
    of the fetches: at most one call is in a fetch; two fetches start at least the cooldown
    apart; a key comes from a set whose fetch began less than the lifetime before the reading
    it was decided with; the cached set is that of the newest fetch with a result; and a key is
    unknown only if the last fetch started by then has published a set without it that had not
    expired, or if its id is empty or longer than 128 bytes. -/
theorem remote_key_fetch_discipline {created : Nat} {pool : Pool Shared Call}
    {events : List (Event KeyRequest Choice Nat)}
    (hrun : (program config).machine.run ⟨Shared.new created, []⟩ events = some pool) :
    (∀ (i j : Nat) (c c' : Call), pool.threads[i]? = some c → pool.threads[j]? = some c' →
      c.holds = true → c'.holds = true → i = j) ∧
    (pool.shared.fetches.map Fetch.started).Pairwise (fun a b => a + config.cooldown ≤ b) ∧
    (∀ (i : Nat) request answer, pool.threads[i]? = some (.returned request answer) →
      answer.Valid config pool.shared.fetches request) ∧
    ∀ keys, pool.shared.cache.keys = some keys →
      ∃ (index : Nat) (f : Fetch), pool.shared.fetches[index]? = some f ∧ f.keys = some keys ∧
        ∀ (j : Nat) (g : Fetch), pool.shared.fetches[j]? = some g → g.keys.isSome = true →
          j ≤ index := by
  have hholds := holds_of_run hrun
  refine ⟨?_, hholds.glob.starts, fun i request answer h => hholds.ok i _ h, ?_⟩
  · intro i j c c' hi hj hc hc'
    have hholder := holder_of_holds (hholds.ok i c hi) hc
    rw [holder_of_holds (hholds.ok j c' hj) hc'] at hholder
    exact (Option.some.inj hholder).symm
  · intro keys hkeys
    obtain ⟨index, f, hf, hfkeys, -, hnewest, -⟩ := hholds.glob.cached keys hkeys
    exact ⟨index, f, hf, hfkeys, hnewest⟩

/-- A call that fetches these keys. -/
def Sample.fetch (tid : Nat) (keys : PreparedKeys) : List (Event KeyRequest Choice Nat) :=
  [.start ⟨ascii "k", .rs256⟩] ++ List.replicate 6 (.step tid .go) ++
    [.step tid (.fetch (some keys)), .step tid .go, .step tid .go, .step tid .go]

def Sample.key : PreparedKey := ⟨.rs256, [1], [2]⟩

/-- A fetch brings an empty set; after the cooldown the key is looked for again. -/
theorem remote_key_fetch_discipline_empty :
    ∃ pool, (program ⟨60, 5⟩).machine.run ⟨Shared.new 0, []⟩
        (Sample.fetch 0 ∅ ++ .tick (5 * second) :: Sample.fetch 1 ∅) = some pool ∧
      pool.shared.fetches.length = 2 ∧ (pool.shared.fetches.map Fetch.started).Pairwise
        (fun a b => a + RemoteJwksConfig.cooldown ⟨60, 5⟩ ≤ b) :=
  ⟨_, rfl, rfl, (@remote_key_fetch_discipline ⟨60, 5⟩ 0 _
    (Sample.fetch 0 ∅ ++ .tick (5 * second) :: Sample.fetch 1 ∅) rfl).2.1⟩

/-- A call reads the clock this long after a fetch of these keys, and comes to the lock 100 s
    later. -/
def Sample.late (keys : PreparedKeys) (delay : Nat) : List (Event KeyRequest Choice Nat) :=
  Sample.fetch 0 keys ++ [.tick delay, .start ⟨ascii "k", .rs256⟩, .step 1 .go,
    .tick (100 * second), .step 1 .go]

/-- The late call answers from the set of the one fetch, whose lifetime of 60 s is over. -/
def Sample.AnswersLate (keys : PreparedKeys) (delay : Nat)
    (result : Except RemoteKeyError PreparedKey) : Prop :=
  ∃ pool answer f,
    (program ⟨60, 5⟩).machine.run ⟨Shared.new 0, []⟩ (Sample.late keys delay) = some pool ∧
    pool.threads[1]? = some (.returned ⟨ascii "k", .rs256⟩ answer) ∧ answer.result = result ∧
    pool.shared.fetches = [f] ∧ f.started + RemoteJwksConfig.ttl ⟨60, 5⟩ < pool.shared.clock

/-- **Unknown without a fetch, and late answers.** An empty key id is called unknown before any
    fetch. A call that waits for the lock hands out a key of a set that has expired, or calls a
    key unknown by such a set. -/
theorem unknown_key_without_fetch :
    (∃ pool answer, (program ⟨60, 5⟩).machine.run ⟨Shared.new 0, []⟩
        [.start ⟨[], .rs256⟩, .step 0 .go] = some pool ∧
      pool.threads[0]? = some (.returned ⟨[], .rs256⟩ answer) ∧
      answer.result = .error .unknownKey ∧ pool.shared.fetches = []) ∧
    Sample.AnswersLate (AList.singleton (ascii "k") Sample.key) (29 * second) (.ok Sample.key) ∧
    Sample.AnswersLate ∅ 0 (.error .unknownKey) :=
  ⟨⟨_, _, rfl, rfl, rfl, rfl⟩, ⟨_, _, _, rfl, rfl, rfl, rfl, by decide +kernel⟩,
    _, _, _, rfl, rfl, rfl, rfl, by decide +kernel⟩

/-! ## The fence behind a verification -/

/-- `RemoteJwksProvider::is_current`, by whoever holds a key that `key` has returned. Keys are
    compared as pointers, by `same`. -/
def isCurrent (same : PreparedKey → PreparedKey → Bool) (cache : Cache) (request : KeyRequest)
    (key : PreparedKey) (now : Nat) : Bool :=
  now < cache.expiresAt && (cache.keys.bind (getFor · request)).any (same · key)

/-- **A withdrawn key admits no new work**, in every interleaving and however long ago it was
    returned: a key is current only while the newest set that a fetch has published has it under
    the request's id and algorithm, and less than the lifetime after that fetch began. -/
theorem current_key_in_newest_set {same : PreparedKey → PreparedKey → Bool}
    (hsame : ∀ a b, same a b = true → a = b) {created : Nat} {pool : Pool Shared Call}
    {events : List (Event KeyRequest Choice Nat)}
    (hrun : (program config).machine.run ⟨Shared.new created, []⟩ events = some pool)
    {key : PreparedKey}
    (h : isCurrent same pool.shared.cache request key pool.shared.clock = true) :
    ∃ (index : Nat) (f : Fetch) (keys : PreparedKeys), pool.shared.fetches[index]? = some f ∧
      f.keys = some keys ∧ getFor keys request = some key ∧
      pool.shared.clock < f.started + config.ttl ∧
      ∀ (j : Nat) (g : Fetch), pool.shared.fetches[j]? = some g → g.keys.isSome = true →
        j ≤ index := by
  have hholds := holds_of_run hrun
  obtain ⟨hfresh, hany⟩ := Bool.and_eq_true_iff.mp h
  obtain ⟨current, hfound, hpointer⟩ := (Option.any_eq_true _ _).mp hany
  obtain ⟨keys, hkeys, hget⟩ := Option.bind_eq_some_iff.mp hfound
  obtain rfl := hsame current key hpointer
  obtain ⟨index, f, hf, hfkeys, hexpires, hnewest, -⟩ := hholds.glob.cached keys hkeys
  exact ⟨index, f, keys, hf, hfkeys, hget, hexpires ▸ of_decide_eq_true hfresh, hnewest⟩

theorem current_key_in_newest_set_fetched :
    ∃ pool, (program ⟨60, 5⟩).machine.run ⟨Shared.new 0, []⟩
        (Sample.fetch 0 (AList.singleton (ascii "k") Sample.key)) = some pool ∧
      isCurrent (· == ·) pool.shared.cache ⟨ascii "k", .rs256⟩ Sample.key 0 = true ∧
      ∃ f ∈ pool.shared.fetches, 0 < f.started + RemoteJwksConfig.ttl ⟨60, 5⟩ := by
  refine ⟨_, rfl, by decide +kernel, ?_⟩
  obtain ⟨_, f, _, hf, _, _, hfresh, _⟩ := @current_key_in_newest_set ⟨60, 5⟩
    ⟨ascii "k", .rs256⟩ (· == ·) (fun _ _ => eq_of_beq) 0 _
    (Sample.fetch 0 (AList.singleton (ascii "k") Sample.key)) rfl Sample.key (by decide +kernel)
  exact ⟨f, List.mem_of_getElem? hf, hfresh⟩

end JwksFetch
