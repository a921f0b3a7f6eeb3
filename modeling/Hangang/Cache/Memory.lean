import Hangang.Cache.Entry
import Hangang.Framework.Table

/-! # The Memory Tier

    `MemoryState`: a map of entries with an index of their sequence numbers, by
    last access or by insertion, from which victims are taken in order. -/

open Bytes

namespace Cache

structure MemoryItem where
  entry : CacheEntry
  size : Nat
  inserted : Nat
  accessed : Nat
  deriving DecidableEq, Repr

/-- The number under which the index holds an item. -/
def MemoryItem.sequence (item : MemoryItem) : Eviction → Nat
  | .lru => item.accessed
  | .fifo => item.inserted

structure MemoryState where
  entries : Table Bytes MemoryItem
  /-- A `BTreeSet`, in its order. -/
  order : List (Nat × Bytes)
  bytes : Nat
  sequence : Nat

/-- The empty tier of `CacheStore::new`. -/
def MemoryState.empty : MemoryState := ⟨∅, [], 0, 0⟩

inductive MemoryLookup where
  | hit (entry : CacheEntry)
  | expired
  | miss
  deriving DecidableEq, Repr

/-- The order of pairs of a number and a key. -/
def precedes (a b : Nat × Bytes) : Bool := a.1 < b.1 || a.1 == b.1 && a.2 < b.2

/-- `BTreeSet::insert`. -/
def orderInsert (x : Nat × Bytes) : List (Nat × Bytes) → List (Nat × Bytes)
  | [] => [x]
  | y :: ys => if x = y then y :: ys else if precedes x y then x :: y :: ys else y :: orderInsert x ys

namespace MemoryState

/-- An item leaves the map, the index and the count. -/
def remove (m : MemoryState) (key : Bytes) (item : MemoryItem) (eviction : Eviction) :
    MemoryState :=
  { m with
    entries := m.entries.erase key
    order := m.order.erase (item.sequence eviction, key)
    bytes := m.bytes - item.size }

def get (m : MemoryState) (key : Bytes) (now : UInt64) (eviction : Eviction) :
    MemoryLookup × MemoryState :=
  match m.entries.lookup key with
  | none => (.miss, m)
  | some item =>
    if isExpired item.entry now then (.expired, m.remove key item eviction)
    else
      match eviction with
      | .fifo => (.hit item.entry, m)
      | .lru =>
        let sequence := saturatingAdd m.sequence 1
        (.hit item.entry, { m with
          entries := m.entries.insert key { item with accessed := sequence }
          order := orderInsert (sequence, key) (m.order.erase (item.accessed, key))
          sequence := sequence })

/-- The loop of `insert` over the victims, in the order of the index. -/
def evict (config : MemoryConfig) (m : MemoryState) (evicted : Nat) :
    List (Nat × Bytes) → Nat × MemoryState
  | [] => (evicted, { m with order := [] })
  | (sequence, victim) :: order =>
    if config.maxBytes < m.bytes || config.maxEntries < m.entries.size then
      match m.entries.lookup victim with
      | none => evict config m evicted order
      | some item =>
        evict config { m with entries := m.entries.erase victim, bytes := m.bytes - item.size }
          (evicted + 1) order
    else (evicted, { m with order := (sequence, victim) :: order })

/-- `MemoryState::insert`, with the number of items it evicts. -/
def insert (m : MemoryState) (key : Bytes) (entry : CacheEntry) (size : Nat)
    (config : MemoryConfig) : Nat × MemoryState :=
  if config.maxBytes < size || config.maxBytes == 0 || config.maxEntries == 0 then (0, m)
  else
    let m := match m.entries.lookup key with
      | none => m
      | some previous => m.remove key previous config.eviction
    let sequence := saturatingAdd m.sequence 1
    let m : MemoryState :=
      { entries := m.entries.insert key ⟨entry, size, sequence, sequence⟩
        order := orderInsert (sequence, key) m.order
        bytes := saturatingAdd m.bytes size
        sequence := sequence }
    m.evict config 0 m.order

def clear (m : MemoryState) : MemoryState := { m with entries := ∅, order := [], bytes := 0 }

end MemoryState

end Cache
