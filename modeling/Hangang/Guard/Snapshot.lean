import Hangang.Framework.Except
import Hangang.Framework.IpNet
import Hangang.Guard.Client

/-! # Guard Snapshots

    A snapshot lists networks to admit and networks to block. `Policy::compile` checks
    it and stores each network under its prefix length and first address, so that a
    lookup masks the address once for each length. Since a network is listed once, and
    by its first address, no entry overwrites another, and the lookup agrees with
    asking each listed network in turn. -/

open Bytes Except

namespace Guard

structure Block where
  network : Bytes
  expiresAt : UInt64
  reason : Bytes
  deriving DecidableEq, Repr

structure Snapshot where
  version : Nat
  revision : UInt64
  generatedAt : UInt64
  validUntil : UInt64
  mode : Mode
  allow : List Bytes
  blocks : List Block
  deriving DecidableEq, Repr

/-- How networks are read and written. -/
structure NetFormat where
  parse : Bytes → Option IpNet
  toString : IpNet → Bytes

def maxEntries : Nat := 100000

/-! ## Prefixes -/

/-- The first `bits` bits of an address. -/
def mask {w : Nat} (n : BitVec w) (bits : Nat) : BitVec w :=
  if bits = 0 then 0 else n &&& (BitVec.allOnes w <<< (w - bits))

def mask4 (n : BitVec 32) (bits : Nat) : BitVec 32 := mask n bits

def mask6 (n : BitVec 128) (bits : Nat) : BitVec 128 := mask n bits

structure Prefixes where
  v4 : Table (Nat × BitVec 32) UInt64
  v6 : Table (Nat × BitVec 128) UInt64

namespace Prefixes

def empty : Prefixes := ⟨∅, ∅⟩

def insert (prefixes : Prefixes) (network : IpNet) (expires : UInt64) : Prefixes :=
  match network with
  | .v4 net => { prefixes with v4 := prefixes.v4.insert (net.prefixLen, net.network) expires }
  | .v6 net => { prefixes with v6 := prefixes.v6.insert (net.prefixLen, net.network) expires }

/-- Asks for each length of a prefix. -/
def find {w : Nat} (table : Table (Nat × BitVec w) UInt64) (mask : BitVec w → Nat → BitVec w)
    (ip : BitVec w) (time : UInt64) : Bool :=
  (List.range (w + 1)).any fun bits =>
    (table.lookup (bits, mask ip bits)).any fun expires => time < expires

/-- `Prefixes::matches`. -/
def covers (prefixes : Prefixes) (ip : IpAddr) (time : UInt64) : Bool :=
  match ip.toCanonical with
  | .v4 octets => find prefixes.v4 mask4 (IpAddr.word4 octets) time
  | .v6 segments => find prefixes.v6 mask6 (IpAddr.word6 segments) time

end Prefixes

/-! ## Policies -/

structure Policy where
  revision : UInt64
  generatedAt : UInt64
  validUntil : UInt64
  mode : Mode
  allow : Prefixes
  blocks : Prefixes

/-- `Ipv6Addr::to_ipv4_mapped`, as a test. -/
def isMapped : IpNet → Bool
  | .v4 _ => false
  | .v6 net => net.addr >>> 32 == 0xFFFF#128

variable (format : NetFormat)

def canonical (value : Bytes) : Except String IpNet := do
  let net ← (format.parse value).elim (.error "invalid guard network") .ok
  ensure (net.isFirst = true ∧ format.toString net = value) "guard network must be canonical"
  ensure (isMapped net = false) "mapped guard networks must use IPv4"
  return net

/-- The networks read so far, compiled and as a set. -/
abbrev Reading : Type := Prefixes × List IpNet

/-- What both loops do with a network. -/
def addNetwork (duplicate : String) (reading : Reading) (network : Bytes) (expires : UInt64) :
    Except String Reading := do
  let net ← canonical format network
  ensure (net ∉ reading.2) duplicate
  return (reading.1.insert net expires, net :: reading.2)

def addAllow (reading : Reading) (text : Bytes) : Except String Reading :=
  addNetwork format "duplicate guard allow network" reading text 0xFFFFFFFFFFFFFFFF

def addBlock (reading : Reading) (block : Block) : Except String Reading := do
  ensure (block.reason.length ≤ 128) "guard reason too long"
  addNetwork format "duplicate guard block network" reading block.network block.expiresAt

def Policy.compile (snapshot : Snapshot) (time : UInt64) : Except String Policy := do
  ensure (snapshot.version = 1) "unsupported guard snapshot version"
  ensure (snapshot.generatedAt ≤ time ∧ time < snapshot.validUntil ∧
    snapshot.generatedAt < snapshot.validUntil ∧
    snapshot.validUntil - snapshot.generatedAt ≤ 300) "invalid guard snapshot times"
  ensure (snapshot.allow.length ≤ maxEntries ∧ snapshot.blocks.length ≤ maxEntries)
    "too many guard networks"
  let allow ← snapshot.allow.foldlM (addAllow format) (.empty, [])
  let blocks ← snapshot.blocks.foldlM (addBlock format) (.empty, [])
  return ⟨snapshot.revision, snapshot.generatedAt, snapshot.validUntil, snapshot.mode, allow.1,
    blocks.1⟩

def Policy.denied (policy : Policy) (ip : IpAddr) (time : UInt64) : Bool :=
  policy.mode == .enforce && decide (time < policy.validUntil) && !policy.allow.covers ip time &&
    policy.blocks.covers ip time

/-! ## Masks -/

variable {w : Nat} {listed : IpNet → UInt64 → Prop} {reading reading' : Reading}

theorem toNat_mask (n : BitVec w) (bits : Nat) :
    (mask n bits).toNat = n.toNat / 2 ^ (w - bits) * 2 ^ (w - bits) := by
  unfold mask
  split
  · rename_i hzero
    rw [hzero, Nat.sub_zero, Nat.div_eq_of_lt n.isLt, Nat.zero_mul]
    rfl
  · -- the kept bits are those of the number shifted out and in again
    have hshift : n &&& (BitVec.allOnes w <<< (w - bits)) = (n >>> (w - bits)) <<< (w - bits) := by
      apply BitVec.eq_of_getLsbD_eq
      intro i hi
      by_cases hlow : i < w - bits
      · simp [hlow]
      · have hsum : w - bits + (i - (w - bits)) = i := by omega
        simp [hi, hlow, hsum]
    have hle : n.toNat / 2 ^ (w - bits) * 2 ^ (w - bits) < 2 ^ w :=
      (Nat.div_mul_le_self _ _).trans_lt n.isLt
    rw [hshift, BitVec.toNat_shiftLeft, BitVec.toNat_ushiftRight, Nat.shiftLeft_eq,
      Nat.shiftRight_eq_div_pow, Nat.mod_eq_of_lt hle]

/-- A network holds the addresses that its mask takes to its first. -/
theorem mask_eq_network_iff (net : Net w) (ip : BitVec w) :
    mask ip net.prefixLen = net.network ↔ net.contains ip = true := by
  rw [Net.contains_iff, ← BitVec.toNat_inj, toNat_mask, Net.size]

/-! ## Compiled prefixes -/

/-- The table has the listed networks and nothing else. -/
def Stores {w : Nat} (table : Table (Nat × BitVec w) UInt64) (listed : Net w → UInt64 → Prop) :
    Prop :=
  ∀ bits word expires, table.lookup (bits, word) = some expires ↔
    ∃ net, listed net expires ∧ net.prefixLen = bits ∧ net.network = word

theorem find_iff {table : Table (Nat × BitVec w) UInt64} {listed : Net w → UInt64 → Prop}
    (h : Stores table listed) (ip : BitVec w) (time : UInt64) :
    Prefixes.find table mask ip time = true ↔
      ∃ net expires, listed net expires ∧ time < expires ∧ net.contains ip = true := by
  simp only [Prefixes.find, List.any_eq_true, List.mem_range, Option.any_eq_true,
    decide_eq_true_iff]
  constructor
  · rintro ⟨bits, -, expires, hlookup, htime⟩
    obtain ⟨net, hlisted, rfl, hnetwork⟩ := (h _ _ _).mp hlookup
    exact ⟨net, expires, hlisted, htime, (mask_eq_network_iff net ip).mp hnetwork.symm⟩
  · rintro ⟨net, expires, hlisted, htime, hcontains⟩
    have hnetwork := (mask_eq_network_iff net ip).mpr hcontains
    exact ⟨net.prefixLen, Nat.lt_succ_of_le net.prefixLen_le, expires,
      (h _ _ _).mpr ⟨net, hlisted, rfl, hnetwork.symm⟩, htime⟩

/-- A network that is new and given by its first address takes no other's place. -/
theorem Stores.insert {table : Table (Nat × BitVec w) UInt64} {listed : Net w → UInt64 → Prop}
    (h : Stores table listed) {net : Net w} (expires : UInt64) (hfirst : net.addr = net.network)
    (hlisted : ∀ n e, listed n e → n.addr = n.network) (hnew : ∀ e, ¬ listed net e) :
    Stores (table.insert (net.prefixLen, net.network) expires)
      fun n e => listed n e ∨ n = net ∧ e = expires := by
  -- the key says which network it is
  have hkey : ∀ n : Net w, n.addr = n.network → n.prefixLen = net.prefixLen →
      n.network = net.network → n = net := by
    intro n hn hlen hnetwork
    have haddr : n.addr = net.addr := by rw [hn, hnetwork, hfirst]
    cases n
    cases net
    obtain rfl : _ = _ := hlen
    obtain rfl : _ = _ := haddr
    rfl
  intro bits word e
  by_cases hmem : (bits, word) = (net.prefixLen, net.network)
  · obtain ⟨rfl, rfl⟩ := Prod.mk.inj hmem
    rw [AList.lookup_insert, Option.some.injEq]
    constructor
    · rintro rfl
      exact ⟨net, .inr ⟨rfl, rfl⟩, rfl, rfl⟩
    · rintro ⟨n, hn | ⟨-, rfl⟩, hlen, hnetwork⟩
      · obtain rfl := hkey n (hlisted n e hn) hlen hnetwork
        exact absurd hn (hnew e)
      · rfl
  · rw [AList.lookup_insert_ne hmem, h]
    constructor
    · rintro ⟨n, hn, hlen, hnetwork⟩
      exact ⟨n, .inl hn, hlen, hnetwork⟩
    · rintro ⟨n, hn | ⟨rfl, rfl⟩, rfl, rfl⟩
      · exact ⟨n, hn, rfl, rfl⟩
      · exact absurd rfl hmem

/-- What the loops know of the networks they have read. -/
structure Compiled (reading : Reading) (listed : IpNet → UInt64 → Prop) : Prop where
  v4 : Stores reading.1.v4 fun net => listed (.v4 net)
  v6 : Stores reading.1.v6 fun net => listed (.v6 net)
  first : ∀ net expires, listed net expires → net.isFirst = true
  seen : ∀ net expires, listed net expires → net ∈ reading.2

theorem compiled_empty : Compiled (.empty, []) fun _ _ => False where
  v4 := by simp [Stores, Prefixes.empty]
  v6 := by simp [Stores, Prefixes.empty]
  first := by simp
  seen := by simp

/-- The lookup agrees with asking each network. -/
theorem Compiled.covers_iff (h : Compiled reading listed) (ip : IpAddr) (time : UInt64) :
    reading.1.covers ip time = true ↔ ∃ net expires, listed net expires ∧ time < expires ∧
      net.contains ip.toCanonical = true := by
  unfold Prefixes.covers
  cases ip.toCanonical with
  | v4 octets =>
    refine (find_iff h.v4 (IpAddr.word4 octets) time).trans ⟨?_, ?_⟩
    · rintro ⟨net, expires, hlisted, hrest⟩
      exact ⟨.v4 net, expires, hlisted, hrest⟩
    · rintro ⟨net | net, expires, hlisted, htime, hcontains⟩
      · exact ⟨net, expires, hlisted, htime, hcontains⟩
      · cases hcontains
  | v6 segments =>
    refine (find_iff h.v6 (IpAddr.word6 segments) time).trans ⟨?_, ?_⟩
    · rintro ⟨net, expires, hlisted, hrest⟩
      exact ⟨.v6 net, expires, hlisted, hrest⟩
    · rintro ⟨net | net, expires, hlisted, htime, hcontains⟩
      · cases hcontains
      · exact ⟨net, expires, hlisted, htime, hcontains⟩

theorem canonical_eq_ok {value : Bytes} {net : IpNet} (h : canonical format value = .ok net) :
    format.parse value = some net ∧ net.isFirst = true := by
  unfold canonical at h
  rw [bind_eq_ok] at h
  obtain ⟨parsed, hparse, h⟩ := h
  rw [bind_eq_ok] at h
  obtain ⟨_, hcanonical, h⟩ := h
  rw [bind_eq_ok] at h
  obtain ⟨_, -, h⟩ := h
  obtain rfl := Except.ok.inj h
  refine ⟨?_, (ensure_eq_ok.mp hcanonical).1⟩
  cases hvalue : format.parse value with
  | none =>
    rw [hvalue] at hparse
    cases hparse
  | some found =>
    rw [hvalue] at hparse
    rw [← Except.ok.inj hparse]

/-- **Step**: one network more. -/
theorem Compiled.addNetwork {duplicate : String} {network : Bytes} {expires : UInt64}
    (h : Compiled reading listed)
    (hadd : addNetwork format duplicate reading network expires = .ok reading') :
    Compiled reading' fun net e =>
      listed net e ∨ format.parse network = some net ∧ e = expires := by
  unfold Guard.addNetwork at hadd
  rw [bind_eq_ok] at hadd
  obtain ⟨net, hcanonical, hadd⟩ := hadd
  rw [bind_eq_ok] at hadd
  obtain ⟨_, hnew, hadd⟩ := hadd
  obtain rfl := Except.ok.inj hadd
  obtain ⟨hparse, hfirst⟩ := canonical_eq_ok format hcanonical
  have hunlisted : ∀ e, ¬ listed net e := fun e he => ensure_eq_ok.mp hnew (h.seen net e he)
  simp only [hparse, Option.some.injEq]
  constructor
  · cases net with
    | v4 net =>
      have := h.v4.insert expires (by simpa [IpNet.isFirst] using hfirst)
        (fun n e hn => by simpa [IpNet.isFirst] using h.first _ e hn) hunlisted
      simpa [Prefixes.insert, eq_comm] using this
    | v6 net => simpa [Prefixes.insert] using h.v4
  · cases net with
    | v4 net => simpa [Prefixes.insert] using h.v6
    | v6 net =>
      have := h.v6.insert expires (by simpa [IpNet.isFirst] using hfirst)
        (fun n e hn => by simpa [IpNet.isFirst] using h.first _ e hn) hunlisted
      simpa [Prefixes.insert, eq_comm] using this
  · rintro n e (hn | ⟨rfl, -⟩)
    · exact h.first n e hn
    · exact hfirst
  · rintro n e (hn | ⟨rfl, -⟩)
    · exact List.mem_cons_of_mem _ (h.seen n e hn)
    · exact List.mem_cons_self

/-- **Run**: a whole loop. -/
theorem Compiled.foldlM {α : Type} {add : Reading → α → Except String Reading} {duplicate : String}
    (network : α → Bytes) (expires : α → UInt64)
    (hadd : ∀ reading x reading', add reading x = .ok reading' →
      Guard.addNetwork format duplicate reading (network x) (expires x) = .ok reading')
    {xs : List α} (h : Compiled reading listed) (hrun : xs.foldlM add reading = .ok reading') :
    Compiled reading' fun net e => listed net e ∨
      ∃ x ∈ xs, format.parse (network x) = some net ∧ e = expires x := by
  induction xs generalizing reading listed with
  | nil =>
    obtain rfl := Except.ok.inj hrun
    simpa using h
  | cons x xs ih =>
    rw [List.foldlM_cons, bind_eq_ok] at hrun
    obtain ⟨mid, hmid, hrun⟩ := hrun
    simpa [or_assoc] using ih (h.addNetwork format (hadd reading x mid hmid)) hrun

theorem addNetwork_of_addBlock {block : Block} (h : addBlock format reading block = .ok reading') :
    addNetwork format "duplicate guard block network" reading block.network block.expiresAt =
      .ok reading' := by
  unfold addBlock at h
  rw [bind_eq_ok] at h
  obtain ⟨_, -, h⟩ := h
  exact h

/-! ## Decisions -/

/-- The network that is written so holds the address. -/
def Holds (network : Bytes) (ip : IpAddr) : Prop :=
  ∃ net, format.parse network = some net ∧ net.contains ip = true

/-- **The compiled policy denies what the snapshot says.** -/
theorem denied_iff (snapshot : Snapshot) (now : UInt64) {policy : Policy}
    (hcompile : Policy.compile format snapshot now = .ok policy) (ip : IpAddr) (time : UInt64) :
    policy.denied ip time = true ↔ snapshot.mode = .enforce ∧ time < snapshot.validUntil ∧
      (¬ ∃ network ∈ snapshot.allow, Holds format network ip.toCanonical) ∧
      ∃ block ∈ snapshot.blocks, time < block.expiresAt ∧
        Holds format block.network ip.toCanonical := by
  unfold Policy.compile at hcompile
  rw [bind_eq_ok] at hcompile
  obtain ⟨_, -, hcompile⟩ := hcompile
  rw [bind_eq_ok] at hcompile
  obtain ⟨_, -, hcompile⟩ := hcompile
  rw [bind_eq_ok] at hcompile
  obtain ⟨_, -, hcompile⟩ := hcompile
  rw [bind_eq_ok] at hcompile
  obtain ⟨allow, hallow, hcompile⟩ := hcompile
  rw [bind_eq_ok] at hcompile
  obtain ⟨blocks, hblocks, hcompile⟩ := hcompile
  obtain rfl := Except.ok.inj hcompile
  have hallowed := Compiled.foldlM format id (fun _ => 0xFFFFFFFFFFFFFFFF) (fun _ _ _ h => h)
    compiled_empty hallow
  have hblocked := Compiled.foldlM format Block.network Block.expiresAt
    (fun _ _ _ h => addNetwork_of_addBlock format h) compiled_empty hblocks
  simp only [Policy.denied, Bool.and_eq_true, beq_iff_eq, decide_eq_true_iff, Bool.not_eq_true',
    and_assoc]
  refine and_congr_right fun _ => and_congr_right fun htime => and_congr ?_ ?_
  · -- allowed networks never expire before the snapshot does
    have hmax : time < 0xFFFFFFFFFFFFFFFF := by
      have := snapshot.validUntil.toNat_lt
      rw [UInt64.lt_iff_toNat_lt] at htime ⊢
      have : (0xFFFFFFFFFFFFFFFF : UInt64).toNat = 2 ^ 64 - 1 := rfl
      omega
    rw [← Bool.not_eq_true, hallowed.covers_iff]
    simp only [false_or, id_eq, Holds]
    apply not_congr
    constructor
    · rintro ⟨net, _, ⟨network, hmem, hparse, rfl⟩, -, hcontains⟩
      exact ⟨network, hmem, net, hparse, hcontains⟩
    · rintro ⟨network, hmem, net, hparse, hcontains⟩
      exact ⟨net, _, ⟨network, hmem, hparse, rfl⟩, hmax, hcontains⟩
  · rw [hblocked.covers_iff]
    simp only [false_or, Holds]
    constructor
    · rintro ⟨net, _, ⟨block, hmem, hparse, rfl⟩, hexpires, hcontains⟩
      exact ⟨block, hmem, hexpires, net, hparse, hcontains⟩
    · rintro ⟨block, hmem, hexpires, net, hparse, hcontains⟩
      exact ⟨net, _, ⟨block, hmem, hparse, rfl⟩, hexpires, hcontains⟩

/-- One network, `10.0.0.0/8`, and one way to write it. -/
def tenFormat : NetFormat where
  parse text := if text = ascii "10.0.0.0/8" then some (.v4 ⟨0x0A000000#32, 8, by decide⟩) else none
  toString _ := ascii "10.0.0.0/8"

/-- It is blocked until 500 by a snapshot that holds until 400. -/
def tenSnapshot : Snapshot :=
  ⟨1, 7, 150, 400, .enforce, [], [⟨ascii "10.0.0.0/8", 500, ascii "scanner"⟩]⟩

/-- A mapped address of the network is denied while the snapshot holds. -/
theorem denied_iff_tenSnapshot :
    ∃ policy, Policy.compile tenFormat tenSnapshot 200 = .ok policy ∧
      policy.denied (.v6 [0, 0, 0, 0, 0, 0xFFFF, 0x0A00, 9]) 300 = true := by
  obtain ⟨policy, hcompile⟩ : ∃ policy, Policy.compile tenFormat tenSnapshot 200 = .ok policy :=
    ⟨_, rfl⟩
  refine ⟨policy, hcompile, ?_⟩
  rw [denied_iff tenFormat tenSnapshot 200 hcompile]
  refine ⟨rfl, by decide, by simp [tenSnapshot], _, List.mem_cons_self, by decide, ?_⟩
  exact ⟨_, rfl, by decide +kernel⟩

end Guard
