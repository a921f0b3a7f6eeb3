import Hangang.Cache.Entry

/-! # The Disk Tier

    The rows that `DiskStore` keeps in SQLite, and its limits in bytes and pages. -/

open Bytes

namespace Cache

structure Row where
  keyHash : Bytes
  entry : CacheEntry
  expiresAtMs : Nat
  objectSize : Nat
  insertSequence : Nat
  accessSequence : Nat
  deriving DecidableEq, Repr

/-! ## Limits -/

def sqlitePageBytes : Nat := 4096

def minDiskPages : Nat := 7

/-- `disk_page_budget`. -/
def diskPageBudget (disk : DiskConfig) : Nat :=
  let headerHeadroom := max (disk.maxBytes / 10) sqlitePageBytes
  let bytesPerPage := sqlitePageBytes * 2 + 8
  max ((disk.maxBytes - headerHeadroom) / bytesPerPage) minDiskPages

/-- `estimated_pages`. -/
def estimatedPages (size : Nat) : Nat := size / (sqlitePageBytes - 4)

/-- `FULL_RECOVERY_PRESSURE`. -/
def fullRecoveryPressure : List (Option Nat) := [none, some 2, some 8, some (2 ^ 64 - 1)]

/-- `i64::saturating_add` of one, on numbers that are not negative. -/
def nextSequence (sequence : Nat) : Nat := min (sequence + 1) (2 ^ 63 - 1)

/-! ## Rows -/

def Row.expired (row : Row) (now : UInt64) : Bool := row.expiresAtMs ≤ asI64 now.toNat

/-- The column that `ORDER BY` names. -/
def Row.sequence (row : Row) : Eviction → Nat
  | .lru => row.accessSequence
  | .fifo => row.insertSequence

end Cache
