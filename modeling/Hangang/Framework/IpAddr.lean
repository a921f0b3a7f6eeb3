import Hangang.Framework.Bytes
import Mathlib.Tactic.Common

/-! # Internet Addresses

    IPv4 and IPv6 addresses and the reader of their textual forms: dotted
    decimal without leading zeros, and up to eight groups of up to four hex
    digits with at most one `::` and an optional dotted tail. -/

inductive IpAddr where
  | v4 (octets : UInt8 × UInt8 × UInt8 × UInt8)
  | v6 (segments : List UInt16)
  deriving DecidableEq, Repr

namespace IpAddr

open Bytes

def digitValue (radix : Nat) (b : UInt8) : Option Nat :=
  let v :=
    if isAsciiDigit b then some (b.toNat - 48)
    else if 97 ≤ b && b ≤ 102 then some (b.toNat - 87)
    else if 65 ≤ b && b ≤ 70 then some (b.toNat - 55)
    else none
  v.filter (· < radix)

/-- The longest run of digits, with its value. -/
def readDigits (radix : Nat) : Bytes → Nat × Nat × Bytes → Nat × Nat × Bytes
  | [], acc => acc
  | b :: rest, (count, value, _) =>
    match digitValue radix b with
    | some d => readDigits radix rest (count + 1, value * radix + d, rest)
    | none => (count, value, b :: rest)

/-- A number of `1..maxDigits` digits below `bound`. -/
def readNumber (radix maxDigits bound : Nat) (zeroPrefix : Bool) (x : Bytes) :
    Option (Nat × Bytes) :=
  let (count, value, rest) := readDigits radix x (0, 0, x)
  if count == 0 || count > maxDigits || value ≥ bound then none
  else if !zeroPrefix && x.head? == some 48 && count > 1 then none
  else some (value, rest)

def readChar (c : UInt8) : Bytes → Option Bytes
  | b :: rest => if b == c then some rest else none
  | [] => none

/-- Four octets separated by dots. -/
def readIpv4 (x : Bytes) : Option ((UInt8 × UInt8 × UInt8 × UInt8) × Bytes) := do
  let (a, x) ← readNumber 10 3 256 false x
  let x ← readChar 46 x
  let (b, x) ← readNumber 10 3 256 false x
  let x ← readChar 46 x
  let (c, x) ← readNumber 10 3 256 false x
  let x ← readChar 46 x
  let (d, x) ← readNumber 10 3 256 false x
  some ((UInt8.ofNat a, UInt8.ofNat b, UInt8.ofNat c, UInt8.ofNat d), x)

/-- Up to `room` groups from position `i`, and whether a dotted tail ended them. -/
def readGroups : Nat → Nat → Bytes → List UInt16 × Bool × Bytes
  | 0, _, x => ([], false, x)
  | room + 1, i, x =>
    let start := if i == 0 then some x else readChar 58 x
    let dotted := if room == 0 then none else start.bind readIpv4
    match dotted with
    | some ((a, b, c, d), rest) =>
      ([a.toUInt16 * 256 + b.toUInt16, c.toUInt16 * 256 + d.toUInt16], true, rest)
    | none =>
      match start.bind (readNumber 16 4 65536 true) with
      | some (g, rest) =>
        let (groups, tail, rest) := readGroups room (i + 1) rest
        (UInt16.ofNat g :: groups, tail, rest)
      | none => ([], false, x)

def readIpv6 (x : Bytes) : Option (List UInt16 × Bytes) :=
  let (head, dotted, rest) := readGroups 8 0 x
  if head.length == 8 then some (head, rest)
  else if dotted then none
  else do
    let rest ← readChar 58 rest
    let rest ← readChar 58 rest
    let (tail, _, rest) := readGroups (7 - head.length) 0 rest
    some (head ++ List.replicate (8 - head.length - tail.length) 0 ++ tail, rest)

/-- The address a whole string spells. -/
def parse (x : Bytes) : Option IpAddr :=
  let v6 := match readIpv6 x with
    | some (g, []) => some (.v6 g)
    | _ => none
  match readIpv4 x with
  | some (o, []) => some (.v4 o)
  | _ => v6

/-- `IpAddr::to_canonical`: an IPv4-mapped address is the IPv4 address. -/
def toCanonical : IpAddr → IpAddr
  | .v6 [0, 0, 0, 0, 0, 0xFFFF, high, low] =>
    .v4 ((high / 256).toUInt8, (high % 256).toUInt8, (low / 256).toUInt8, (low % 256).toUInt8)
  | ip => ip

/-- An address that was made canonical is no mapped one. -/
@[simp] theorem toCanonical_toCanonical (ip : IpAddr) :
    ip.toCanonical.toCanonical = ip.toCanonical := by
  generalize h : ip.toCanonical = canonical
  unfold toCanonical at h
  split at h
  · subst h
    rfl
  · rename_i hmapped
    subst h
    unfold toCanonical
    split
    · exact absurd rfl (hmapped _ _)
    · rfl

end IpAddr
