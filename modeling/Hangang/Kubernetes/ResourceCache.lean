import Hangang.Kubernetes.Controller
import Hangang.Kubernetes.Hosts
import Hangang.Framework.Json
import Mathlib.Data.Finset.Basic

/-! # The Resource Cache

    `kubernetes::ResourceCache`: the stripped objects of the watched kinds, with a count and a
    byte total of each kind that lists and watch events are admitted by. A list replaces a kind
    as a whole, an event changes one object, and the response to a status patch is folded back
    into the object it belongs to, without an admission.

    The counters are `usize` and are changed by differences. Where a difference would be
    negative, or where a value that is no object would be indexed, the operation of the source
    panics; here it is `none`.

    * **The operations**, on `serde_json` values; the length of a printed value is a parameter.
    * **Totals**: the counters are the totals of the values, kind by kind.
    * **Runs**: no operation panics, and a kind that is incomplete stays so until it is
      replaced. -/

open Bytes
open Json (insertMember lookup_insertMember lookup_insertMember_ne)

namespace Kubernetes

namespace Resources

/-! ## Objects -/

/-- Copies the fields that are there. -/
def copyFields (value : Option Json) (fields : List String) (members : JsonObject) : JsonObject :=
  fields.foldl (fun members field =>
    (value.bind (Json.get · field)).elim members fun found =>
      insertMember (ascii field) found members) members

def insertSome (name : String) (value : Option Json) (members : JsonObject) : JsonObject :=
  value.elim members fun found => insertMember (ascii name) found members

def ingressClassName : String := "kubernetes.io/ingress.class"

/-- The members that are kept beside the metadata. -/
def stripBody (kind : ResourceKind) (object : Json) : JsonObject :=
  match kind with
  | .secret =>
    let stripped := insertSome "type" (object.get "type") []
    let data := copyFields (object.get "data") ["tls.crt", "tls.key"] []
    if data.isEmpty then stripped else insertMember (ascii "data") (.object data) stripped
  | .service =>
    insertMember (ascii "spec") (.object (copyFields (object.get "spec") ["type", "ports"] [])) []
  | .ingress =>
    let stripped := insertSome "spec" (object.get "spec") []
    insertSome "status" ((object.pointer ["status", "loadBalancer"]).map fun status =>
      .object [(ascii "loadBalancer", status)]) stripped

/-- The metadata that is kept. -/
def stripMetadata (kind : ResourceKind) (object : Json) : JsonObject :=
  let metadata := copyFields (object.get "metadata") ["name", "namespace", "resourceVersion"] []
  match kind with
  | .ingress =>
    let metadata :=
      copyFields (object.get "metadata") ["creationTimestamp", "uid", "generation"] metadata
    insertSome "annotations" ((object.pointer ["metadata", "annotations", ingressClassName]).map
      fun found => .object [(ascii ingressClassName, found)]) metadata
  | _ => metadata

def strip (kind : ResourceKind) (object : Json) : Json :=
  .object (insertMember (ascii "metadata") (.object (stripMetadata kind object))
    (stripBody kind object))

/-- `value[name] = new`; `none` is the panic of a value that has no members. -/
def setIndex (value : Json) (name : String) (new : Json) : Option Json :=
  match value with
  | .object members => some (.object (insertMember (ascii name) new members))
  | .null => some (.object [(ascii name, new)])
  | _ => none

/-! ## The cache -/

structure Cached where
  object : Json
  bytes : Nat

@[ext] structure Usage where
  count : Nat
  bytes : Nat
  deriving DecidableEq, Repr

abbrev CacheKey : Type := ResourceKind × ObjectKey

structure ResourceCache where
  values : Table CacheKey Cached
  usage : Table ResourceKind Usage
  incomplete : Finset ResourceKind

def empty : ResourceCache := ⟨∅, ∅, ∅⟩

inductive CacheError where
  | identity (error : IdentityError)
  /-- "Kubernetes {limit} exceeded" -/
  | capacityExceeded (limit : String)
  /-- "duplicate Kubernetes object" -/
  | duplicate
  deriving DecidableEq, Repr

def maxCacheBytesPerKind : Nat := 64 * 1024 * 1024

/-- `usage.get(..).copied().unwrap_or_default()`. -/
def ResourceCache.usageOf (cache : ResourceCache) (kind : ResourceKind) : Usage :=
  (cache.usage.lookup kind).getD ⟨0, 0⟩

/-- A subtraction of `usize`; `none` is its panic. -/
def checkedSub (a b : Nat) : Option Nat := if b ≤ a then some (a - b) else none

section operations

variable (serializedLen : Json → Nat)

/-- One object of a list. -/
def admitListed (kind : ResourceKind) (maxObjects : Nat)
    (read : Table CacheKey Cached × Usage) (object : Json) :
    Except CacheError (Table CacheKey Cached × Usage) := do
  let key ← (objectKey object).mapError .identity
  let stripped := strip kind object
  let bytes := serializedLen stripped
  let usage : Usage := ⟨read.2.count + 1, read.2.bytes + bytes⟩
  Except.ensure (usage.count ≤ maxObjects) (.capacityExceeded "object limit")
  Except.ensure (usage.bytes ≤ maxCacheBytesPerKind) (.capacityExceeded "cache byte limit")
  Except.ensure (read.1.lookup (kind, key) = none) .duplicate
  return (read.1.insert (kind, key) ⟨stripped, bytes⟩, usage)

/-- `replace`; the cache is changed at the end only. -/
def ResourceCache.replace (cache : ResourceCache) (kind : ResourceKind) (objects : List Json)
    (maxObjects : Nat) : Except CacheError ResourceCache := do
  let read ← objects.foldlM (admitListed serializedLen kind maxObjects) (∅, ⟨0, 0⟩)
  return {
    values := (cache.values.retain fun key _ => key.1 ≠ kind).extend read.1
    usage := cache.usage.insert kind read.2
    incomplete := cache.incomplete.erase kind }

/-- The checks and the effect of an upsert. -/
def ResourceCache.upsert (cache : ResourceCache) (key : CacheKey) (stripped : Json)
    (maxObjects : Nat) : Option (ResourceCache × Except CacheError Unit) := do
  let usage := cache.usageOf key.1
  let bytes := serializedLen stripped
  let old : Usage := (cache.values.lookup key).elim ⟨0, 0⟩ fun cached => ⟨1, cached.bytes⟩
  -- `entry(kind).or_default()` comes before the checks
  let rejected := { cache with usage := cache.usage.insert key.1 usage }
  let count ← checkedSub usage.count old.count
  if maxObjects ≤ count then
    return (rejected, .error (.capacityExceeded "object limit"))
  let others ← checkedSub usage.bytes old.bytes
  if maxCacheBytesPerKind < others + bytes then
    return (rejected, .error (.capacityExceeded "cache byte limit"))
  return ({ cache with
    values := cache.values.insert key ⟨stripped, bytes⟩
    usage := cache.usage.insert key.1 ⟨count + 1, others + bytes⟩ }, .ok ())

def ResourceCache.delete (cache : ResourceCache) (key : CacheKey) : Option ResourceCache :=
  let usage := cache.usageOf key.1
  match cache.values.lookup key with
  | none => some { cache with usage := cache.usage.insert key.1 usage }
  | some cached => do
    let count ← checkedSub usage.count 1
    let bytes ← checkedSub usage.bytes cached.bytes
    return { cache with
      values := cache.values.erase key
      usage := cache.usage.insert key.1 ⟨count, bytes⟩ }

/-- `apply_bounded`. -/
def ResourceCache.applyBounded (cache : ResourceCache) (kind : ResourceKind)
    (action : WatchAction) (object : Json) (maxObjects : Nat) :
    Option (ResourceCache × Except CacheError Unit) :=
  match objectKey object with
  | .error error => some (cache, .error (.identity error))
  | .ok key =>
    match action with
    | .upsert => cache.upsert serializedLen (kind, key) (strip kind object) maxObjects
    | .delete => (cache.delete (kind, key)).map (·, .ok ())

def ResourceCache.markIncomplete (cache : ResourceCache) (kind : ResourceKind) : ResourceCache :=
  { cache with incomplete := insert kind cache.incomplete }

/-- The object with the version and the status of a response. -/
def adopt (object rv current : Json) : Option Json := do
  let metadata ← setIndex (object.index "metadata") "resourceVersion" rv
  let object ← setIndex object "metadata" metadata
  setIndex object "status" ((current.get "status").getD .null)

/-- `update_status`. -/
def ResourceCache.updateStatus (cache : ResourceCache) (key : ObjectKey) (current : Json) :
    Option ResourceCache :=
  match cache.values.lookup (.ingress, key), current.pointer ["metadata", "resourceVersion"] with
  | some cached, some rv => do
    let object ← adopt cached.object rv current
    let bytes := serializedLen object
    let usage := cache.usageOf .ingress
    let others ← checkedSub usage.bytes cached.bytes
    return { cache with
      values := cache.values.insert (.ingress, key) ⟨object, bytes⟩
      usage := cache.usage.insert .ingress { usage with bytes := others + bytes } }
  | _, _ => some cache

/-- The operations of the controller on its cache. -/
inductive Op where
  | replace (kind : ResourceKind) (objects : List Json) (maxObjects : Nat)
  | event (kind : ResourceKind) (action : WatchAction) (object : Json) (maxObjects : Nat)
  | markIncomplete (kind : ResourceKind)
  | updateStatus (key : ObjectKey) (current : Json)

def machine : Machine ResourceCache Op where
  step cache
    | .replace kind objects maxObjects =>
      some ((cache.replace serializedLen kind objects maxObjects).toOption.getD cache)
    | .event kind action object maxObjects =>
      (cache.applyBounded serializedLen kind action object maxObjects).map Prod.fst
    | .markIncomplete kind => some (cache.markIncomplete kind)
    | .updateStatus key current => cache.updateStatus serializedLen key current

end operations

/-! ## Cached objects -/

/-- A cached object has members, and its metadata has, too. -/
def HasMetadata (object : Json) : Prop :=
  ∃ members metadata, object = .object members ∧
    JsonObject.get members "metadata" = some (.object metadata)

theorem hasMetadata_strip (kind : ResourceKind) (object : Json) : HasMetadata (strip kind object) :=
  ⟨_, _, rfl, lookup_insertMember _ _ _⟩

/-- Nothing that is indexed in a cached object panics. -/
theorem adopt_eq_some {object : Json} (h : HasMetadata object) (rv current : Json) :
    ∃ adopted, adopt object rv current = some adopted ∧ HasMetadata adopted := by
  obtain ⟨members, metadata, rfl, hmetadata⟩ := h
  have hindex : Json.index (.object members) "metadata" = .object metadata := by
    show (JsonObject.get members "metadata").getD .null = _
    rw [hmetadata]
    rfl
  refine ⟨_, by rw [adopt, hindex]; rfl, _,
    insertMember (ascii "resourceVersion") rv metadata, rfl, ?_⟩
  exact (lookup_insertMember_ne (by decide) _ _).trans (lookup_insertMember _ _ _)

/-! ## Totals -/

/-- What an object contributes to a total of a kind. -/
def weigh (kind : ResourceKind) (w : Cached → Nat) (key : CacheKey) (cached : Cached) : Nat :=
  if key.1 = kind then w cached else 0

/-- The sum over the objects of a kind. -/
def totalOf (kind : ResourceKind) (w : Cached → Nat) (values : Table CacheKey Cached) : Nat :=
  Table.sum (weigh kind w) values

/-- What the object under a key contributes, if there is one. -/
def weightAt (kind : ResourceKind) (w : Cached → Nat) (values : Table CacheKey Cached)
    (key : CacheKey) : Nat :=
  (values.lookup key).elim 0 (weigh kind w key)

section totals

variable (kind : ResourceKind) (w : Cached → Nat) (values : Table CacheKey Cached) (key : CacheKey)

theorem totalOf_erase :
    totalOf kind w (values.erase key) + weightAt kind w values key = totalOf kind w values := by
  unfold weightAt
  cases hlookup : values.lookup key with
  | none =>
    rw [Table.erase_of_lookup_none hlookup]
    rfl
  | some cached => exact Table.sum_erase (weigh kind w) hlookup

theorem totalOf_insert (cached : Cached) :
    totalOf kind w (values.insert key cached) + weightAt kind w values key =
      totalOf kind w values + weigh kind w key cached := by
  have herase := totalOf_erase kind w values key
  have hinsert := Table.sum_insert (weigh kind w) values key cached
  unfold totalOf at herase ⊢
  omega

/-- The objects of a kind are exchanged. -/
theorem totalOf_replace {replacement : Table CacheKey Cached} {replaced : ResourceKind}
    (h : ∀ key cached, replacement.lookup key = some cached → key.1 = replaced) :
    totalOf kind w ((values.retain fun key _ => key.1 ≠ replaced).extend replacement) =
      if kind = replaced then totalOf kind w replacement else totalOf kind w values := by
  have hnone : ∀ key, key ∈ replacement →
      (values.retain fun key _ => key.1 ≠ replaced).lookup key = none := by
    intro key hkey
    obtain ⟨cached, hcached⟩ := Option.isSome_iff_exists.mp (AList.lookup_isSome.mpr hkey)
    rw [Table.lookup_retain, h key cached hcached]
    cases values.lookup key <;> simp
  have hretained : totalOf kind w (values.retain fun key _ => key.1 ≠ replaced) =
      if kind = replaced then 0 else totalOf kind w values := by
    unfold totalOf
    rw [Table.sum_retain]
    split
    · next heq =>
      subst heq
      refine Table.sum_eq_zero fun key cached _ => ?_
      by_cases hkey : key.1 = kind <;> simp [weigh, hkey]
    · next hne =>
      refine Table.sum_congr fun key cached _ => ?_
      by_cases hkey : key.1 = kind
      · have : key.1 ≠ replaced := fun heq => hne (hkey.symm.trans heq)
        simp [this]
      · simp [weigh, hkey]
  have hextend : totalOf kind w ((values.retain fun key _ => key.1 ≠ replaced).extend replacement) =
      totalOf kind w (values.retain fun key _ => key.1 ≠ replaced) + totalOf kind w replacement :=
    Table.sum_extend (weigh kind w) hnone
  rw [hextend, hretained]
  split
  · exact Nat.zero_add _
  · next hne =>
    have hzero : totalOf kind w replacement = 0 := by
      refine Table.sum_eq_zero fun key cached hcached => ?_
      exact if_neg fun hkey => hne (hkey.symm.trans (h key cached hcached))
    rw [hzero, Nat.add_zero]

end totals

/-! ## Accounting -/

section accounting

variable {serializedLen : Json → Nat} {cache : ResourceCache}

/-- The printed length of a cached object. -/
def printed (serializedLen : Json → Nat) (cached : Cached) : Nat := serializedLen cached.object

/-- The counters of each kind are the number and the printed lengths of its objects. -/
structure Accounted (serializedLen : Json → Nat) (cache : ResourceCache) : Prop where
  count : ∀ kind, (cache.usageOf kind).count = totalOf kind (fun _ => 1) cache.values
  bytes : ∀ kind, (cache.usageOf kind).bytes = totalOf kind (printed serializedLen) cache.values
  cached : ∀ key cached, cache.values.lookup key = some cached →
    cached.bytes = serializedLen cached.object ∧ HasMetadata cached.object

theorem usageOf_insert (values : Table CacheKey Cached) (usage : Table ResourceKind Usage)
    (incomplete : Finset ResourceKind) (kind kind' : ResourceKind) (u : Usage) :
    (⟨values, usage.insert kind u, incomplete⟩ : ResourceCache).usageOf kind' =
      if kind' = kind then u else (⟨values, usage, incomplete⟩ : ResourceCache).usageOf kind' := by
  unfold ResourceCache.usageOf
  split
  · next heq =>
    rw [heq, AList.lookup_insert]
    rfl
  · next hne => rw [AList.lookup_insert_ne hne]

/-- An entry that was absent is written as its default. -/
theorem usageOf_touch (cache : ResourceCache) (kind kind' : ResourceKind) :
    ({ cache with usage := cache.usage.insert kind (cache.usageOf kind) } : ResourceCache).usageOf
      kind' = cache.usageOf kind' := by
  rw [usageOf_insert]
  split
  · next heq => rw [heq]
  · rfl

theorem Accounted.touch (h : Accounted serializedLen cache) (kind : ResourceKind) :
    Accounted serializedLen
      { cache with usage := cache.usage.insert kind (cache.usageOf kind) } where
  count kind' := (congrArg Usage.count (usageOf_touch cache kind kind')).trans (h.count kind')
  bytes kind' := (congrArg Usage.bytes (usageOf_touch cache kind kind')).trans (h.bytes kind')
  cached := h.cached

variable {kind : ResourceKind}

theorem weightAt_other {key : CacheKey} (hkind : kind ≠ key.1) (w : Cached → Nat)
    (values : Table CacheKey Cached) : weightAt kind w values key = 0 := by
  unfold weightAt weigh
  cases values.lookup key with
  | none => rfl
  | some cached => exact if_neg (Ne.symm hkind)

/-- What the counters say about the object under a key. -/
theorem Accounted.weightAt (h : Accounted serializedLen cache) (key : CacheKey) :
    let old : Usage := (cache.values.lookup key).elim ⟨0, 0⟩ fun cached => ⟨1, cached.bytes⟩
    old.count = Resources.weightAt key.1 (fun _ => 1) cache.values key ∧
      old.bytes = Resources.weightAt key.1 (printed serializedLen) cache.values key ∧
      old.count ≤ (cache.usageOf key.1).count ∧ old.bytes ≤ (cache.usageOf key.1).bytes := by
  have hcount := totalOf_erase key.1 (fun _ => 1) cache.values key
  have hbytes := totalOf_erase key.1 (printed serializedLen) cache.values key
  rw [h.count, h.bytes, ← hcount, ← hbytes]
  unfold Resources.weightAt weigh
  cases hlookup : cache.values.lookup key with
  | none => exact ⟨rfl, rfl, Nat.zero_le _, Nat.zero_le _⟩
  | some cached =>
    have hsize : cached.bytes = printed serializedLen cached := (h.cached key cached hlookup).1
    simp only [Option.elim_some, if_true, hsize]
    exact ⟨trivial, trivial, Nat.le_add_left .., Nat.le_add_left ..⟩

/-- An object is put under a key, and the counters follow. -/
theorem Accounted.put (h : Accounted serializedLen cache) {key : CacheKey} {object : Json}
    (hobject : HasMetadata object) {usage : Usage}
    (hcount : usage.count + Resources.weightAt key.1 (fun _ => 1) cache.values key =
      (cache.usageOf key.1).count + 1)
    (hbytes : usage.bytes + Resources.weightAt key.1 (printed serializedLen) cache.values key =
      (cache.usageOf key.1).bytes + serializedLen object) :
    Accounted serializedLen { cache with
      values := cache.values.insert key ⟨object, serializedLen object⟩
      usage := cache.usage.insert key.1 usage } := by
  have hkept : ∀ kind w, kind ≠ key.1 → totalOf kind w
      (cache.values.insert key ⟨object, serializedLen object⟩) = totalOf kind w cache.values := by
    intro kind w hkind
    have := totalOf_insert kind w cache.values key ⟨object, serializedLen object⟩
    rw [weightAt_other hkind, weigh, if_neg (Ne.symm hkind)] at this
    exact this
  refine ⟨fun kind => ?_, fun kind => ?_, fun k cached hlookup => ?_⟩
  · rw [usageOf_insert]
    split
    · next heq =>
      subst heq
      have := totalOf_insert key.1 (fun _ => 1) cache.values key ⟨object, serializedLen object⟩
      rw [weigh, if_pos rfl] at this
      rw [h.count] at hcount
      dsimp only
      omega
    · next hne => exact (h.count kind).trans (hkept kind _ hne).symm
  · rw [usageOf_insert]
    split
    · next heq =>
      subst heq
      have := totalOf_insert key.1 (printed serializedLen) cache.values key
        ⟨object, serializedLen object⟩
      rw [weigh, if_pos rfl] at this
      rw [h.bytes] at hbytes
      simp only [printed] at this hbytes ⊢
      omega
    · next hne => exact (h.bytes kind).trans (hkept kind _ hne).symm
  · rcases Table.lookup_of_insert hlookup with ⟨-, rfl⟩ | hold
    · exact ⟨rfl, hobject⟩
    · exact h.cached k cached hold

theorem checkedSub_of_le {a b : Nat} (h : b ≤ a) : checkedSub a b = some (a - b) := if_pos h

/-- The counters of a kind are within the limits. -/
def ResourceCache.Within (cache : ResourceCache) (kind : ResourceKind) (maxObjects : Nat) : Prop :=
  (cache.usageOf kind).count ≤ maxObjects ∧ (cache.usageOf kind).bytes ≤ maxCacheBytesPerKind

/-- The caches agree in everything that is read from them. -/
structure ResourceCache.Same (cache cache' : ResourceCache) : Prop where
  values : cache'.values = cache.values
  usage : ∀ kind, cache'.usageOf kind = cache.usageOf kind
  incomplete : cache'.incomplete = cache.incomplete

/-- What an event leaves. -/
structure Applied (serializedLen : Json → Nat) (cache : ResourceCache) (cache' : ResourceCache)
    (result : Except CacheError Unit) : Prop where
  accounted : Accounted serializedLen cache'
  incomplete : cache'.incomplete = cache.incomplete
  rejected : ∀ error, result = .error error → cache.Same cache'

theorem Accounted.upsert (h : Accounted serializedLen cache) (key : CacheKey) {stripped : Json}
    (hstripped : HasMetadata stripped) (maxObjects : Nat) :
    ∃ cache' result, cache.upsert serializedLen key stripped maxObjects = some (cache', result) ∧
      Applied serializedLen cache cache' result ∧
      (result = .ok () → cache'.Within key.1 maxObjects) := by
  obtain ⟨hcount, hbytes, hcountLe, hbytesLe⟩ := h.weightAt key
  have hrejected : ∀ error, Applied serializedLen cache
      { cache with usage := cache.usage.insert key.1 (cache.usageOf key.1) } (.error error) :=
    fun error => ⟨h.touch key.1, rfl, fun _ _ => ⟨rfl, usageOf_touch cache key.1, rfl⟩⟩
  unfold ResourceCache.upsert
  simp only [checkedSub_of_le hcountLe, checkedSub_of_le hbytesLe, Option.bind_eq_bind,
    Option.bind_some]
  split
  · exact ⟨_, _, rfl, hrejected _, fun hok => by cases hok⟩
  · next hroom =>
    split
    · exact ⟨_, _, rfl, hrejected _, fun hok => by cases hok⟩
    · next hfits =>
      refine ⟨_, _, rfl, ⟨h.put hstripped ?_ ?_, rfl, fun _ herror => by cases herror⟩, fun _ => ?_⟩
      · rw [← hcount]
        dsimp only at hcountLe ⊢
        omega
      · rw [← hbytes]
        dsimp only at hbytesLe ⊢
        omega
      · unfold ResourceCache.Within
        rw [usageOf_insert, if_pos rfl]
        exact ⟨Nat.lt_of_not_le hroom, Nat.le_of_not_lt hfits⟩

theorem Accounted.delete (h : Accounted serializedLen cache) (key : CacheKey) :
    ∃ cache', cache.delete key = some cache' ∧ Applied serializedLen cache cache' (.ok ()) := by
  obtain ⟨hcount, hbytes, hcountLe, hbytesLe⟩ := h.weightAt key
  unfold ResourceCache.delete
  dsimp only
  split
  · exact ⟨_, rfl, h.touch key.1, rfl, fun _ herror => by cases herror⟩
  · next cached hlookup =>
    rw [hlookup] at hcount hbytes hcountLe hbytesLe
    simp only [Option.elim_some] at hcount hbytes hcountLe hbytesLe
    rw [checkedSub_of_le hcountLe, checkedSub_of_le hbytesLe]
    refine ⟨_, rfl, ⟨fun kind => ?_, fun kind => ?_, fun k found hfound => ?_⟩, rfl,
      fun _ herror => by cases herror⟩
    · have herase := totalOf_erase kind (fun _ => 1) cache.values key
      rw [usageOf_insert]
      split
      · next heq =>
        subst heq
        rw [h.count] at hcountLe ⊢
        dsimp only
        omega
      · next hne =>
        rw [weightAt_other hne] at herase
        exact (h.count kind).trans herase.symm
    · have herase := totalOf_erase kind (printed serializedLen) cache.values key
      rw [usageOf_insert]
      split
      · next heq =>
        subst heq
        rw [h.bytes] at hbytesLe ⊢
        dsimp only
        omega
      · next hne =>
        rw [weightAt_other hne] at herase
        exact (h.bytes kind).trans herase.symm
    · exact h.cached k found (Table.lookup_of_erase hfound).2

/-- `apply_bounded` does not panic. -/
theorem Accounted.applyBounded (h : Accounted serializedLen cache) (kind : ResourceKind)
    (action : WatchAction) (object : Json) (maxObjects : Nat) :
    ∃ cache' result,
      cache.applyBounded serializedLen kind action object maxObjects = some (cache', result) ∧
      Applied serializedLen cache cache' result ∧
      (action = .upsert → result = .ok () → cache'.Within kind maxObjects) := by
  unfold ResourceCache.applyBounded
  split
  · exact ⟨_, _, rfl, ⟨h, rfl, fun _ _ => ⟨rfl, fun _ => rfl, rfl⟩⟩, fun _ hok => by cases hok⟩
  · next key hkey =>
    cases action with
    | upsert =>
      obtain ⟨cache', result, hupsert, happlied, hwithin⟩ :=
        h.upsert (kind, key) (hasMetadata_strip kind object) maxObjects
      exact ⟨cache', result, hupsert, happlied, fun _ => hwithin⟩
    | delete =>
      obtain ⟨cache', hdelete, happlied⟩ := h.delete (kind, key)
      refine ⟨cache', .ok (), ?_, happlied, fun haction => by cases haction⟩
      dsimp only
      rw [hdelete]
      rfl

/-- `update_status` does not panic. -/
theorem Accounted.updateStatus (h : Accounted serializedLen cache) (key : ObjectKey)
    (current : Json) :
    ∃ cache', cache.updateStatus serializedLen key current = some cache' ∧
      Accounted serializedLen cache' ∧ cache'.incomplete = cache.incomplete := by
  obtain ⟨hcount, hbytes, hcountLe, hbytesLe⟩ := h.weightAt (.ingress, key)
  unfold ResourceCache.updateStatus
  split
  · next cached rv hlookup hrv =>
    rw [hlookup] at hcount hbytes hcountLe hbytesLe
    simp only [Option.elim_some] at hcount hbytes hcountLe hbytesLe
    obtain ⟨object, hadopt, hobject⟩ :=
      adopt_eq_some (h.cached _ cached hlookup).2 rv current
    simp only [hadopt, checkedSub_of_le hbytesLe, Option.bind_eq_bind, Option.bind_some]
    refine ⟨_, rfl, h.put hobject ?_ ?_, rfl⟩
    · rw [← hcount]
    · rw [← hbytes]
      dsimp only
      omega
  · exact ⟨_, rfl, h, rfl⟩

/-! ## Lists -/

/-- What has been read of a list is counted as it is cached. -/
structure Listed (serializedLen : Json → Nat) (kind : ResourceKind) (maxObjects : Nat)
    (read : Table CacheKey Cached × Usage) : Prop where
  count : read.2.count = totalOf kind (fun _ => 1) read.1
  bytes : read.2.bytes = totalOf kind (printed serializedLen) read.1
  kinds : ∀ key cached, read.1.lookup key = some cached → key.1 = kind
  cached : ∀ key cached, read.1.lookup key = some cached →
    cached.bytes = serializedLen cached.object ∧ HasMetadata cached.object
  count_le : read.2.count ≤ maxObjects
  bytes_le : read.2.bytes ≤ maxCacheBytesPerKind

theorem listed_empty (serializedLen : Json → Nat) (kind : ResourceKind) (maxObjects : Nat) :
    Listed serializedLen kind maxObjects (∅, ⟨0, 0⟩) where
  count := rfl
  bytes := rfl
  kinds key cached hlookup := by cases hlookup
  cached key cached hlookup := by cases hlookup
  count_le := Nat.zero_le _
  bytes_le := Nat.zero_le _

theorem Listed.admitListed {maxObjects : Nat} {object : Json}
    {read read' : Table CacheKey Cached × Usage} (h : Listed serializedLen kind maxObjects read)
    (hlisted : admitListed serializedLen kind maxObjects read object = .ok read') :
    Listed serializedLen kind maxObjects read' := by
  simp only [Resources.admitListed, Except.bind_eq_ok, Except.ensure_eq_ok] at hlisted
  obtain ⟨key, -, -, hcount, -, hbytes, -, hnew, hread⟩ := hlisted
  obtain rfl := Except.ok.inj hread
  have htotal : ∀ w, totalOf kind w (read.1.insert (kind, key)
      ⟨strip kind object, serializedLen (strip kind object)⟩) = totalOf kind w read.1 +
        w ⟨strip kind object, serializedLen (strip kind object)⟩ := by
    intro w
    have hinsert := totalOf_insert kind w read.1 (kind, key)
      ⟨strip kind object, serializedLen (strip kind object)⟩
    rw [weightAt, hnew, weigh, if_pos rfl] at hinsert
    exact hinsert
  refine ⟨?_, ?_, fun k cached hlookup => ?_, fun k cached hlookup => ?_, hcount, hbytes⟩
  · exact (congrArg (· + 1) h.count).trans (htotal _).symm
  · exact (congrArg (· + serializedLen (strip kind object)) h.bytes).trans (htotal _).symm
  · rcases Table.lookup_of_insert hlookup with ⟨rfl, -⟩ | hold
    · rfl
    · exact h.kinds k cached hold
  · rcases Table.lookup_of_insert hlookup with ⟨-, rfl⟩ | hold
    · exact ⟨rfl, hasMetadata_strip kind object⟩
    · exact h.cached k cached hold

variable {cache' : ResourceCache}

/-- A list that is taken counts anew what it brings, and touches no other kind. -/
theorem Accounted.replace (h : Accounted serializedLen cache) {objects : List Json}
    {maxObjects : Nat}
    (hreplace : cache.replace serializedLen kind objects maxObjects = .ok cache') :
    Accounted serializedLen cache' ∧ cache'.Within kind maxObjects ∧
      cache'.incomplete = cache.incomplete.erase kind := by
  rw [ResourceCache.replace, Except.bind_eq_ok] at hreplace
  obtain ⟨read, hread, hcache⟩ := hreplace
  obtain rfl := Except.ok.inj hcache
  have hlisted : Listed serializedLen kind maxObjects read :=
    Except.foldlM_invariant (Listed serializedLen kind maxObjects)
      (fun _ _ _ _ hInv => hInv.admitListed) (listed_empty serializedLen kind maxObjects) hread
  refine ⟨⟨fun kind' => ?_, fun kind' => ?_, fun key cached hlookup => ?_⟩, ?_, rfl⟩
  · rw [usageOf_insert, totalOf_replace kind' _ cache.values hlisted.kinds]
    split
    · next heq =>
      subst heq
      exact hlisted.count
    · exact h.count kind'
  · rw [usageOf_insert, totalOf_replace kind' _ cache.values hlisted.kinds]
    split
    · next heq =>
      subst heq
      exact hlisted.bytes
    · exact h.bytes kind'
  · rcases Table.lookup_of_extend hlookup with hold | hnew
    · rw [Table.lookup_retain, Option.filter_eq_some_iff] at hold
      exact h.cached key cached hold.1
    · exact hlisted.cached key cached hnew
  · unfold ResourceCache.Within
    rw [usageOf_insert, if_pos rfl]
    exact ⟨hlisted.count_le, hlisted.bytes_le⟩

/-! ## Runs -/

theorem accounted_empty (serializedLen : Json → Nat) : Accounted serializedLen empty where
  count _ := rfl
  bytes _ := rfl
  cached key cached hlookup := by cases hlookup

/-- Every operation is total on an accounted cache. -/
theorem Accounted.step (h : Accounted serializedLen cache) (op : Op) :
    ∃ cache', (machine serializedLen).step cache op = some cache' ∧
      Accounted serializedLen cache' := by
  cases op with
  | replace kind objects maxObjects =>
    refine ⟨_, rfl, ?_⟩
    cases hreplace : cache.replace serializedLen kind objects maxObjects with
    | error error => exact h
    | ok cache' => exact (h.replace hreplace).1
  | event kind action object maxObjects =>
    obtain ⟨cache', result, happly, happlied, -⟩ := h.applyBounded kind action object maxObjects
    exact ⟨cache', congrArg (Option.map Prod.fst) happly, happlied.accounted⟩
  | markIncomplete kind => exact ⟨_, rfl, h.count, h.bytes, h.cached⟩
  | updateStatus key current =>
    obtain ⟨cache', hupdate, haccounted, -⟩ := h.updateStatus key current
    exact ⟨cache', hupdate, haccounted⟩

/-- No run panics. -/
theorem Accounted.run (h : Accounted serializedLen cache) (ops : List Op) :
    ∃ cache', (machine serializedLen).run cache ops = some cache' ∧
      Accounted serializedLen cache' := by
  induction ops generalizing cache with
  | nil => exact ⟨cache, rfl, h⟩
  | cons op ops ih =>
    obtain ⟨mid, hstep, hmid⟩ := h.step op
    obtain ⟨cache', hrun, hcache'⟩ := ih hmid
    exact ⟨cache', (Machine.run_cons_eq_some _).mpr ⟨mid, hstep, hrun⟩, hcache'⟩

/-- The operation is a list of the kind that is taken. -/
def Relists (serializedLen : Json → Nat) (kind : ResourceKind) (cache : ResourceCache) : Op → Prop
  | .replace kind' objects maxObjects =>
    kind' = kind ∧ (cache.replace serializedLen kind objects maxObjects).toOption.isSome = true
  | _ => False

/-- What is incomplete stays so, unless it is relisted. -/
theorem Accounted.incomplete_step (h : Accounted serializedLen cache) {op : Op}
    (hstep : (machine serializedLen).step cache op = some cache')
    (hincomplete : kind ∈ cache.incomplete) (hop : ¬ Relists serializedLen kind cache op) :
    kind ∈ cache'.incomplete := by
  cases op with
  | replace kind' objects maxObjects =>
    obtain rfl := Option.some.inj hstep
    cases hreplace : cache.replace serializedLen kind' objects maxObjects with
    | error error => exact hincomplete
    | ok cache' =>
      have hne : kind ≠ kind' := by
        rintro rfl
        exact hop ⟨rfl, by rw [hreplace]; rfl⟩
      show kind ∈ cache'.incomplete
      rw [(h.replace hreplace).2.2]
      exact Finset.mem_erase.mpr ⟨hne, hincomplete⟩
  | event kind' action object maxObjects =>
    obtain ⟨found, result, happly, happlied, -⟩ := h.applyBounded kind' action object maxObjects
    obtain rfl := Option.some.inj ((congrArg (Option.map Prod.fst) happly).symm.trans hstep)
    exact happlied.incomplete ▸ hincomplete
  | markIncomplete kind' =>
    obtain rfl := Option.some.inj hstep
    exact Finset.mem_insert_of_mem hincomplete
  | updateStatus key current =>
    obtain ⟨found, hupdate, -, hkept⟩ := h.updateStatus key current
    obtain rfl := Option.some.inj (hupdate.symm.trans hstep)
    exact hkept ▸ hincomplete

/-- A run relists the kind when one of its operations does. -/
theorem Accounted.incomplete_run (h : Accounted serializedLen cache) {ops : List Op}
    (hrun : (machine serializedLen).run cache ops = some cache')
    (hincomplete : kind ∈ cache.incomplete) (hcomplete : kind ∉ cache'.incomplete) :
    ∃ before op after mid, ops = before ++ op :: after ∧
      (machine serializedLen).run cache before = some mid ∧ Relists serializedLen kind mid op := by
  induction ops generalizing cache with
  | nil =>
    obtain rfl := Option.some.inj hrun
    exact absurd hincomplete hcomplete
  | cons op ops ih =>
    obtain ⟨next, hstep, hrest⟩ := (Machine.run_cons_eq_some _).mp hrun
    by_cases hop : Relists serializedLen kind cache op
    · exact ⟨[], op, ops, cache, rfl, rfl, hop⟩
    · obtain ⟨next', hstep', haccounted⟩ := h.step op
      obtain rfl := Option.some.inj (hstep'.symm.trans hstep)
      obtain ⟨before, found, after, mid, rfl, hbefore, hrelists⟩ :=
        ih haccounted hrest (h.incomplete_step hstep hincomplete hop)
      exact ⟨op :: before, found, after, mid, rfl,
        (Machine.run_cons_eq_some _).mpr ⟨next', hstep, hbefore⟩, hrelists⟩

end accounting

/-- **The accounting of the resource cache**: whatever the controller does to its cache from the
    start, nothing panics, and afterwards the counters of each kind are the number of its
    objects and the sum of their printed lengths. A list or an object that is then admitted
    leaves its kind within the limits, an event that is rejected leaves the cache as it reads,
    and an incomplete kind that is found complete later has been replaced in between. -/
theorem cache_accounting (serializedLen : Json → Nat) (ops : List Op) :
    ∃ cache, (machine serializedLen).run empty ops = some cache ∧
      (∀ kind, cache.usageOf kind =
        ⟨totalOf kind (fun _ => 1) cache.values,
          totalOf kind (fun cached => serializedLen cached.object) cache.values⟩) ∧
      (∀ kind objects maxObjects cache',
        cache.replace serializedLen kind objects maxObjects = .ok cache' →
          cache'.Within kind maxObjects) ∧
      (∀ kind action object maxObjects, ∃ cache' result,
        cache.applyBounded serializedLen kind action object maxObjects = some (cache', result) ∧
        (action = .upsert → result = .ok () → cache'.Within kind maxObjects) ∧
        (∀ error, result = .error error → cache.Same cache')) ∧
      (∀ kind later cache', kind ∈ cache.incomplete →
        (machine serializedLen).run cache later = some cache' → kind ∉ cache'.incomplete →
          ∃ before op after mid, later = before ++ op :: after ∧
            (machine serializedLen).run cache before = some mid ∧
            Relists serializedLen kind mid op) := by
  obtain ⟨cache, hrun, haccounted⟩ := (accounted_empty serializedLen).run ops
  refine ⟨cache, hrun, fun kind => ?_, fun kind objects maxObjects cache' hreplace => ?_,
    fun kind action object maxObjects => ?_, fun kind later cache' hincomplete hlater => ?_⟩
  · exact Usage.ext (haccounted.count kind) (haccounted.bytes kind)
  · exact (haccounted.replace hreplace).2.1
  · obtain ⟨cache', result, happly, happlied, hwithin⟩ :=
      haccounted.applyBounded kind action object maxObjects
    exact ⟨cache', result, happly, hwithin, happlied.rejected⟩
  · exact haccounted.incomplete_run hlater hincomplete

namespace Sample

def service (name : String) : Json :=
  .object [(ascii "metadata", .object [(ascii "name", .string (ascii name))])]

/-- The length of the text of a value with objects and strings, nested at most `depth` deep. -/
def textLen : Nat → Json → Nat
  | depth + 1, .object members =>
    max 2 (1 + (members.map fun member => 4 + member.1.length + textLen depth member.2).sum)
  | _, .string text => text.length + 2
  | _, _ => 4

/-- The second Service finds no room, and the kind becomes incomplete. -/
def crowded : List Op :=
  [.event .service .upsert (service "web") 1, .event .service .upsert (service "api") 1,
    .markIncomplete .service]

def relisted : List Op := [.replace .service [service "web"] 1]

end Sample

/-- With room for one Service, the one that was admitted is counted, another is rejected, and
    the relist that completes the kind is found. -/
theorem cache_accounting_crowded : ∃ cache,
    (machine (Sample.textLen 8)).run empty Sample.crowded = some cache ∧
      cache.usageOf .service = ⟨1, 37⟩ ∧
      (∃ cache', cache.applyBounded (Sample.textLen 8) .service .upsert (Sample.service "api") 1 =
          some (cache', .error (.capacityExceeded "object limit")) ∧ cache.Same cache') ∧
      ∃ cache', (machine (Sample.textLen 8)).run cache Sample.relisted = some cache' ∧
        .service ∈ cache.incomplete ∧ .service ∉ cache'.incomplete ∧
        cache'.Within .service 1 ∧
        ∃ before op after mid, Sample.relisted = before ++ op :: after ∧
          (machine (Sample.textLen 8)).run cache before = some mid ∧
          Relists (Sample.textLen 8) .service mid op := by
  obtain ⟨cache, hrun, -, hlist, hevent, hlater⟩ :=
    cache_accounting (Sample.textLen 8) Sample.crowded
  obtain rfl := Option.some.inj hrun
  obtain ⟨cache', result, happly, -, hrejected⟩ :=
    hevent .service .upsert (Sample.service "api") 1
  obtain ⟨rfl, rfl⟩ := Prod.mk.inj (Option.some.inj happly)
  exact ⟨_, hrun, rfl, ⟨_, rfl, hrejected _ rfl⟩, _, rfl, by decide, by decide,
    hlist .service [Sample.service "web"] 1 _ rfl,
    hlater .service Sample.relisted _ (by decide) rfl (by decide)⟩

end Resources

end Kubernetes
