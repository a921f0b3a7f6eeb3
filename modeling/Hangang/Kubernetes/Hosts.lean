import Hangang.Framework.Except
import Hangang.Framework.Json
import Hangang.Framework.Table
import Mathlib.Data.List.Lex
import Mathlib.Data.List.Sort
import Mathlib.Data.Prod.Lex

/-! # Identities of Kubernetes Objects

    `kubernetes::object_key`: the namespace and the name of an object, each of them a
    DNS subdomain. -/

open Bytes Except

namespace Kubernetes

def dnsSubdomain (value : Bytes) : Bool :=
  !value.isEmpty && value.length ≤ 253 &&
    (splitOn 46 value).all fun part =>
      !part.isEmpty && part.length ≤ 63 && part.head? != some 45 && part.getLast? != some 45 &&
        part.all fun b => isAsciiLowercase b || isAsciiDigit b || b == 45

/-- Namespace and name. -/
abbrev ObjectKey : Type := Bytes × Bytes

inductive IdentityError where
  /-- "Kubernetes object name missing" -/
  | nameMissing
  /-- "invalid Kubernetes object identity" -/
  | invalid
  deriving DecidableEq, Repr

def objectKey (object : Json) : Except IdentityError ObjectKey := do
  let ns := ((object.pointer ["metadata", "namespace"]).bind Json.asStr).getD (ascii "default")
  let name ← (((object.pointer ["metadata", "name"]).bind Json.asStr).elim
    (.error .nameMissing) .ok : Except IdentityError Bytes)
  ensure (dnsSubdomain ns ∧ dnsSubdomain name) .invalid
  return (ns, name)

end Kubernetes
