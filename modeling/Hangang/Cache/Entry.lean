import Hangang.CachePolicy.Key

/-! # Cache Entries

    The values of the cache and the limits they are held to, as `cache_store`
    has them. -/

open Bytes CachePolicy Http

namespace Cache

/-! ## Configuration -/

inductive Eviction where
  | lru
  | fifo
  deriving DecidableEq, Repr

structure MemoryConfig where
  maxBytes : Nat
  maxEntries : Nat
  eviction : Eviction
  deriving DecidableEq, Repr

structure DiskConfig where
  maxBytes : Nat
  maxEntries : Nat
  eviction : Eviction
  deriving DecidableEq, Repr

/-! ## Entries -/

structure CacheEntry where
  body : Bytes
  headers : List (Bytes × Bytes)
  status : UInt16
  storedUnixMs : UInt64
  ttlMs : UInt64
  initialAgeSeconds : UInt64
  /-- Ghost: the number of the fill that captured the entry, counting the fills of
      the runtime; `none` for a row that an earlier process left. -/
  producer : Option Nat
  deriving DecidableEq, Repr

/-- `u64::saturating_add`, and `usize::saturating_add`. -/
def saturatingAdd (a b : Nat) : Nat := min (a + b) (2 ^ 64 - 1)

def expiresAtMs (entry : CacheEntry) : Nat :=
  saturatingAdd entry.storedUnixMs.toNat entry.ttlMs.toNat

def isExpired (entry : CacheEntry) (now : UInt64) : Bool := expiresAtMs entry ≤ now.toNat

/-- `u64_as_i64` and `now_as_i64`. -/
def asI64 (value : Nat) : Nat := min value (2 ^ 63 - 1)

end Cache
