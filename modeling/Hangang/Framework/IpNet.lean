import Hangang.Framework.IpAddr
import Mathlib.Algebra.Group.Nat.Defs
import Mathlib.Tactic.Ring

/-! # Internet Networks

    An address with the length of the prefix that its network's addresses share. A
    network runs from its first address, where the other bits are zero, to its last,
    where they are one. Networks of one family never hold an address of the other. -/

/-- An address of `w` bits and the length of a prefix. -/
structure Net (w : Nat) where
  addr : BitVec w
  prefixLen : Nat
  prefixLen_le : prefixLen ≤ w
  deriving DecidableEq, Repr

namespace Net

variable {w : Nat}

/-- The number of addresses. -/
def size (net : Net w) : Nat := 2 ^ (w - net.prefixLen)

/-- The first address. -/
def network (net : Net w) : BitVec w := BitVec.ofNat w (net.addr.toNat / net.size * net.size)

/-- The last address. -/
def broadcast (net : Net w) : BitVec w :=
  BitVec.ofNat w (net.addr.toNat / net.size * net.size + (net.size - 1))

def contains (net : Net w) (ip : BitVec w) : Bool :=
  decide (net.network ≤ ip) && decide (ip ≤ net.broadcast)

theorem size_pos (net : Net w) : 0 < net.size := Nat.two_pow_pos _

/-- A prefix with all its addresses fits. -/
theorem last_lt (net : Net w) :
    net.addr.toNat / net.size * net.size + (net.size - 1) < 2 ^ w := by
  have hsplit : 2 ^ w = 2 ^ net.prefixLen * net.size := by
    rw [size, ← Nat.pow_add, Nat.add_sub_cancel' net.prefixLen_le]
  have hquotient : net.addr.toNat / net.size < 2 ^ net.prefixLen := by
    rw [Nat.div_lt_iff_lt_mul net.size_pos, ← hsplit]
    exact net.addr.isLt
  have hpos := net.size_pos
  calc net.addr.toNat / net.size * net.size + (net.size - 1)
      < net.addr.toNat / net.size * net.size + net.size := by omega
    _ = (net.addr.toNat / net.size + 1) * net.size := by ring
    _ ≤ 2 ^ net.prefixLen * net.size := Nat.mul_le_mul_right _ hquotient
    _ = 2 ^ w := hsplit.symm

theorem toNat_network (net : Net w) :
    net.network.toNat = net.addr.toNat / net.size * net.size := by
  rw [network, BitVec.toNat_ofNat]
  exact Nat.mod_eq_of_lt (by have := net.last_lt; omega)

theorem toNat_broadcast (net : Net w) :
    net.broadcast.toNat = net.addr.toNat / net.size * net.size + (net.size - 1) := by
  rw [broadcast, BitVec.toNat_ofNat, Nat.mod_eq_of_lt net.last_lt]

/-- **Containment**: the first bits agree. -/
theorem contains_iff (net : Net w) (ip : BitVec w) :
    net.contains ip = true ↔ ip.toNat / net.size * net.size = net.network.toNat := by
  have hpos := net.size_pos
  rw [contains, Bool.and_eq_true, decide_eq_true_iff, decide_eq_true_iff, BitVec.le_def,
    BitVec.le_def, toNat_broadcast, toNat_network]
  constructor
  · rintro ⟨hfirst, hlast⟩
    have hquotient : ip.toNat / net.size = net.addr.toNat / net.size := by
      apply Nat.div_eq_of_lt_le hfirst
      rw [Nat.add_mul]
      omega
    rw [hquotient]
  · intro heq
    rw [← heq]
    have hdiv := Nat.div_add_mod' ip.toNat net.size
    have hmod := Nat.mod_lt ip.toNat hpos
    omega

end Net

inductive IpNet where
  | v4 (net : Net 32)
  | v6 (net : Net 128)
  deriving DecidableEq, Repr

namespace IpAddr

/-- `u32::from`. -/
def word4 (octets : UInt8 × UInt8 × UInt8 × UInt8) : BitVec 32 :=
  octets.1.toBitVec ++ octets.2.1.toBitVec ++ octets.2.2.1.toBitVec ++ octets.2.2.2.toBitVec

/-- `u128::from`. -/
def word6 (segments : List UInt16) : BitVec 128 :=
  segments.foldl (fun word segment => word <<< 16 ||| segment.toBitVec.setWidth 128) 0

end IpAddr

namespace IpNet

open IpAddr

def contains : IpNet → IpAddr → Bool
  | .v4 net, .v4 octets => net.contains (word4 octets)
  | .v6 net, .v6 segments => net.contains (word6 segments)
  | _, _ => false

/-- Whether the address is the network's first. -/
def isFirst : IpNet → Bool
  | .v4 net => net.addr == net.network
  | .v6 net => net.addr == net.network

end IpNet
