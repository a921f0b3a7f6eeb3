import Hangang.Framework.IpAddr

/-! # Host Patterns

    `host_match`: matching of host names against exact patterns, addresses and
    label-local globs. Routes, path blocks and failure bans select hosts with
    it.

    `match_label` runs a small NFA in one 64-bit word. The places where the
    source could index out of an array, shift out of the word or reach its
    `unreachable!` are kept: the word-level functions return `none` there. -/

open Bytes

namespace HostMatch

def maxHostBytes : Nat := 253

def maxLabelBytes : Nat := 63

/-- `host_match::is_glob`: `*` or `?` occurs. -/
def isGlob (pattern : Bytes) : Bool := pattern.any fun b => b == 42 || b == 63

def isAscii (x : Bytes) : Bool := x.all (· < 128)

/-- `host_match::parse_ip`: an address, or one in brackets. -/
def parseIp (value : Bytes) : Option IpAddr :=
  (IpAddr.parse value).or
    (match value with
    | 91 :: rest =>
      if rest.getLast? == some 93 then IpAddr.parse rest.dropLast else none
    | _ => none)

/-- `host_match::valid_labels`. -/
def validLabels (value : Bytes) (wildcards : Bool) : Bool :=
  (splitOn 46 value).all fun label =>
    !label.isEmpty && label.length ≤ maxLabelBytes &&
      label.head? != some 45 && label.getLast? != some 45 &&
      label.all fun b =>
        isAsciiAlphanumeric b || b == 45 || (wildcards && (b == 42 || b == 63))

/-! ## The label automaton -/

/-- `host_match::character_index`; `none` is its `unreachable!`. -/
def characterIndex (byte : UInt8) : Option Nat :=
  let b := toAsciiLowercase byte
  if isAsciiLowercase b then some (b.toNat - 97)
  else if isAsciiDigit b then some (26 + (byte.toNat - 48))
  else if b == 45 then some 36
  else none

/-- The pattern with runs of stars collapsed, in the fixed array of 63 bytes. -/
def compactStars : Bytes → Bytes → Option Bytes
  | compact, [] => some compact
  | compact, b :: rest =>
    if b == 42 && compact.getLast? == some 42 then compactStars compact rest
    else if compact.length < maxLabelBytes then compactStars (compact ++ [b]) rest
    else none

/-- `1_u64 << index`. -/
def bit (index : Nat) : Option UInt64 :=
  if index < 64 then some ((1 : UInt64) <<< UInt64.ofNat index) else none

structure Masks where
  literals : List UInt64
  questions : UInt64
  stars : UInt64
  deriving DecidableEq, Repr

/-- The transition masks, one pattern position at a time. -/
def buildMasks : Masks → Nat → Bytes → Option Masks
  | masks, _, [] => some masks
  | masks, index, b :: rest => do
    let flag ← bit index
    if b == 42 then buildMasks { masks with stars := masks.stars ||| flag } (index + 1) rest
    else if b == 63 then
      buildMasks { masks with questions := masks.questions ||| flag } (index + 1) rest
    else
      let slot ← characterIndex b
      let old ← masks.literals[slot]?
      buildMasks { masks with literals := masks.literals.set slot (old ||| flag) } (index + 1) rest

/-- One step of epsilon closure: a star may consume nothing. -/
def close (stars states : UInt64) : UInt64 := states ||| ((states &&& stars) <<< 1)

/-- The loop over the host bytes; `some 0` is the early exit. -/
def advance (masks : Masks) : UInt64 → Bytes → Option UInt64
  | states, [] => some states
  | states, actual :: rest => do
    let slot ← characterIndex actual
    let literal ← masks.literals[slot]?
    let advancing := states &&& (masks.questions ||| literal)
    let consumingStars := states &&& masks.stars
    let states := close masks.stars ((advancing <<< 1) ||| consumingStars)
    if states == 0 then some 0 else advance masks states rest

/-- `host_match::match_label`. -/
def matchLabel (pattern host : Bytes) : Option Bool := do
  let compact ← compactStars [] pattern
  let masks ← buildMasks ⟨List.replicate 37 0, 0, 0⟩ 0 compact
  let states ← advance masks (close masks.stars 1) host
  if states == 0 then some false
  else
    let final ← bit compact.length
    some (close masks.stars states &&& final != 0)

/-- The label-by-label loop of `matches`. -/
def matchLabels : List Bytes → List Bytes → Option Bool
  | pattern :: patterns, host :: hosts => do
    if ← matchLabel pattern host then matchLabels patterns hosts else some false
  | [], [] => some true
  | _, _ => some false

/-- `host_match::matches`, with `none` for a panic. -/
def matchesChecked (pattern host : Bytes) : Option Bool :=
  if pattern.isEmpty || host.isEmpty || !isAscii pattern || !isAscii host then some false
  else if !isGlob pattern then
    match parseIp pattern with
    | some expected => some (parseIp host == some expected)
    | none =>
      some (pattern.length ≤ 255 && host.length ≤ 255 && eqIgnoreAsciiCase pattern host)
  else if pattern.length > maxHostBytes || host.length > maxHostBytes then some false
  else if !validLabels pattern true || !validLabels host false then some false
  else matchLabels (splitOn 46 pattern) (splitOn 46 host)

/-- `host_match::matches`. -/
def patternMatches (pattern host : Bytes) : Bool := matchesChecked pattern host == some true

/-- `host_match::validate_pattern`; the errors carry the texts of the source. -/
def validatePattern (pattern : Bytes) : Except String Unit :=
  if pattern.isEmpty then .error "host pattern must not be empty"
  else if pattern.length > maxHostBytes then .error "host pattern exceeds 253 bytes"
  else if !isAscii pattern then .error "host pattern must be ASCII"
  else if !isGlob pattern && (parseIp pattern).isSome then .ok ()
  else if !validLabels pattern true then
    .error "invalid host pattern; each label must contain 1..63 DNS characters, '*' or '?'"
  else .ok ()

end HostMatch
