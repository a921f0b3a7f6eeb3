import Mathlib.Data.UInt

/-! # Member Admission

    `member_admission`: one word holds the retired flag, the pending flag and the
    number of leases. Every operation is one atomic update of the word, so each
    is a pure function here. -/

namespace MemberAdmission

def retiredFlag : UInt64 := (1 : UInt64) <<< 63

def pendingFlag : UInt64 := (1 : UInt64) <<< 62

def countMask : UInt64 := pendingFlag - 1

def prepared : UInt64 := pendingFlag

/-- `MemberAdmission::serving`, also the default. -/
def serving : UInt64 := 0

/-- `compare_exchange(PENDING, 0)`; `none` is the failed exchange. -/
def activate (word : UInt64) : Option UInt64 := if word = pendingFlag then some 0 else none

def retire (word : UInt64) : UInt64 := word ||| retiredFlag

def isOpen (word : UInt64) : Bool := word &&& (pendingFlag ||| retiredFlag) == 0

def active (word : UInt64) : UInt64 := word &&& countMask

/-- One more lease, unless the gate is closed or the count is full. -/
def acquire (word : UInt64) : Option UInt64 :=
  if word &&& (pendingFlag ||| retiredFlag) == 0 && word &&& countMask < countMask then
    some (word + 1)
  else none

/-- One lease less; `none` is the panic without a lease. -/
def release (word : UInt64) : Option UInt64 :=
  if word &&& countMask != 0 then some (word - 1) else none

end MemberAdmission
