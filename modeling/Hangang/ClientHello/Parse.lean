import Hangang.Framework.Except
import Hangang.Framework.Utf8
import Hangang.HostMatch

/-! # The Body of a ClientHello

    `parse_client_hello` with the functions it calls: the server name that a
    ClientHello asks for. A `Cursor` is the part of its bytes that is left. -/

open Bytes Except

namespace ClientHello

/-! ## The cursor -/

/-- `Cursor::take`. -/
def take (amount : Nat) (field : String) (input : Bytes) : Except String (Bytes × Bytes) :=
  if input.length < amount then .error ("truncated " ++ field)
  else .ok (input.take amount, input.drop amount)

/-- `Cursor::u8`. -/
def u8 (field : String) (input : Bytes) : Except String (UInt8 × Bytes) :=
  (take 1 field input).map fun (bytes, rest) => (bytes.headI, rest)

/-- `u16::from_be_bytes`, as a `usize`. -/
def be16 (high low : UInt8) : Nat := high.toNat * 256 + low.toNat

/-- `Cursor::u16`. -/
def u16 (field : String) (input : Bytes) : Except String (Nat × Bytes) :=
  (take 2 field input).map fun (bytes, rest) => (be16 bytes.headI bytes.tail.headI, rest)

theorem length_take {amount : Nat} {field : String} {input bytes rest : Bytes}
    (h : take amount field input = .ok (bytes, rest)) : rest.length + amount = input.length := by
  unfold take at h
  split at h
  · cases h
  · cases h
    rw [List.length_drop]
    omega

theorem length_u8 {field : String} {input rest : Bytes} {value : UInt8}
    (h : u8 field input = .ok (value, rest)) : rest.length + 1 = input.length := by
  obtain ⟨⟨bytes, rest'⟩, htake, heq⟩ := map_eq_ok.mp h
  cases heq
  exact length_take htake

theorem length_u16 {field : String} {input rest : Bytes} {value : Nat}
    (h : u16 field input = .ok (value, rest)) : rest.length + 2 = input.length := by
  obtain ⟨⟨bytes, rest'⟩, htake, heq⟩ := map_eq_ok.mp h
  cases heq
  exact length_take htake

/-! ## Host names -/

/-- The checks of `canonical_hostname` on one label. -/
def checkLabel (label : Bytes) : Except String Unit := do
  ensure (label ≠ [] ∧ label.length ≤ 63) "invalid SNI label length"
  ensure ((label.all fun b => isAsciiAlphanumeric b || b == 45) ∧
    label.head? ≠ some 45 ∧ label.getLast? ≠ some 45) "invalid SNI hostname"

def canonicalHostname (host : Bytes) : Except String Bytes := do
  ensure (host ≠ [] ∧ host.length ≤ 253) "invalid SNI hostname length"
  ensure (HostMatch.isAscii host) "SNI hostname must be ASCII"
  ensure (host.getLast? ≠ some 46) "SNI hostname must not have a trailing dot"
  ensure (IpAddr.parse host).isNone "SNI hostname must not be an IP address"
  (splitOn 46 host).forM checkLabel
  return host.map toAsciiLowercase

/-! ## The server name extension -/

/-- One name of the list, with the types seen before. -/
def nextName (seenTypes : List UInt8) (extension : Bytes) :
    Except String (UInt8 × Bytes × Bytes) := do
  let (nameType, extension) ← u8 "SNI name type" extension
  ensure (nameType ∉ seenTypes) "duplicate SNI name type"
  let (nameLen, extension) ← u16 "SNI name length" extension
  let (name, extension) ← take nameLen "SNI name" extension
  ensure (name ≠ []) "empty SNI name"
  return (nameType, name, extension)

/-- A name of type 0. -/
def hostName (name : Bytes) : Except String Bytes := do
  ensure (Utf8.isValid name) "SNI hostname is not ASCII"
  ensure (HostMatch.isAscii name) "SNI hostname is not ASCII"
  canonicalHostname name

theorem length_nextName {seenTypes : List UInt8} {extension name rest : Bytes} {nameType : UInt8}
    (h : nextName seenTypes extension = .ok (nameType, name, rest)) :
    rest.length < extension.length := by
  unfold nextName at h
  obtain ⟨⟨t, x₁⟩, ht, h⟩ := bind_eq_ok.mp h
  obtain ⟨-, -, h⟩ := bind_eq_ok.mp h
  obtain ⟨⟨n, x₂⟩, hn, h⟩ := bind_eq_ok.mp h
  obtain ⟨⟨name', x₃⟩, hname, h⟩ := bind_eq_ok.mp h
  obtain ⟨-, -, h⟩ := bind_eq_ok.mp h
  cases h
  have h₁ := length_u8 ht
  have h₂ := length_u16 hn
  have h₃ := length_take hname
  omega

/-- The loop of `parse_server_name`. -/
def parseNames (seenTypes : List UInt8) (host : Option Bytes) (extension : Bytes) :
    Except String (Option Bytes) :=
  if extension.isEmpty then .ok host
  else
    match _hnext : nextName seenTypes extension with
    | .error e => .error e
    | .ok (nameType, name, rest) =>
      if nameType = 0 then
        match hostName name with
        | .error e => .error e
        | .ok host => parseNames (nameType :: seenTypes) (some host) rest
      else parseNames (nameType :: seenTypes) host rest
termination_by extension.length
decreasing_by
  · exact length_nextName _hnext
  · exact length_nextName _hnext

def parseServerName (value : Bytes) : Except String Bytes := do
  let (listLen, extension) ← u16 "SNI name list length" value
  ensure (listLen = extension.length) "invalid SNI name list length"
  ensure (0 < listLen) "empty SNI name list"
  match ← parseNames [] none extension with
  | some host => return host
  | none => throw "SNI does not contain a hostname"

/-! ## The ClientHello -/

/-- One extension, with the types seen before. -/
def nextExtension (seenExtensions : List Nat) (extensions : Bytes) :
    Except String (Nat × Bytes × Bytes) := do
  let (extensionType, extensions) ← u16 "ClientHello extension type" extensions
  ensure (extensionType ∉ seenExtensions) "duplicate ClientHello extension"
  let (length, extensions) ← u16 "ClientHello extension length" extensions
  let (value, extensions) ← take length "ClientHello extension body" extensions
  return (extensionType, value, extensions)

theorem length_nextExtension {seenExtensions : List Nat} {extensions value rest : Bytes}
    {extensionType : Nat}
    (h : nextExtension seenExtensions extensions = .ok (extensionType, value, rest)) :
    rest.length < extensions.length := by
  unfold nextExtension at h
  obtain ⟨⟨t, x₁⟩, ht, h⟩ := bind_eq_ok.mp h
  obtain ⟨-, -, h⟩ := bind_eq_ok.mp h
  obtain ⟨⟨n, x₂⟩, hn, h⟩ := bind_eq_ok.mp h
  obtain ⟨⟨value', x₃⟩, hvalue, h⟩ := bind_eq_ok.mp h
  cases h
  have h₁ := length_u16 ht
  have h₂ := length_u16 hn
  have h₃ := length_take hvalue
  omega

/-- The loop of `parse_client_hello`. -/
def parseExtensions (seenExtensions : List Nat) (serverName : Option Bytes) (extensions : Bytes) :
    Except String (Option Bytes) :=
  if extensions.isEmpty then .ok serverName
  else
    match _hnext : nextExtension seenExtensions extensions with
    | .error e => .error e
    | .ok (extensionType, value, rest) =>
      if extensionType = 0 then
        if serverName.isSome then .error "duplicate SNI extension"
        else
          match parseServerName value with
          | .error e => .error e
          | .ok name => parseExtensions (extensionType :: seenExtensions) (some name) rest
      else parseExtensions (extensionType :: seenExtensions) serverName rest
termination_by extensions.length
decreasing_by
  · exact length_nextExtension _hnext
  · exact length_nextExtension _hnext

def parseClientHello (body : Bytes) : Except String Bytes := do
  let (_, input) ← take 2 "ClientHello legacy version" body
  let (_, input) ← take 32 "ClientHello random" input
  let (sessionLen, input) ← u8 "ClientHello session id length" input
  ensure (sessionLen ≤ 32) "invalid ClientHello session id length"
  let (_, input) ← take sessionLen.toNat "ClientHello session id" input
  let (cipherLen, input) ← u16 "ClientHello cipher suites length" input
  ensure (2 ≤ cipherLen ∧ cipherLen % 2 = 0) "invalid ClientHello cipher suites"
  let (_, input) ← take cipherLen "ClientHello cipher suites" input
  let (compressionLen, input) ← u8 "ClientHello compression methods length" input
  ensure (0 < compressionLen) "invalid ClientHello compression methods"
  let (_, input) ← take compressionLen.toNat "ClientHello compression methods" input
  let (extensionsLen, input) ← u16 "ClientHello extensions length" input
  ensure (extensionsLen = input.length) "invalid ClientHello extensions length"
  let (extensions, _) ← take extensionsLen "ClientHello extensions" input
  match ← parseExtensions [] none extensions with
  | some serverName => return serverName
  | none => throw "ClientHello does not contain SNI"

end ClientHello
