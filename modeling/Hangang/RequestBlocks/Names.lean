import Hangang.Framework.Except
import Hangang.Framework.Utf8

/-! # Request Blocks: Parameter Names

    A backend may fold several spellings of a parameter into one name, as PHP does.
    `canonicalName` computes the folded name and refuses a spelling that would let a
    parameter reach a protected name, or a method override, under another text. -/

open Bytes Except

namespace RequestBlocks

def nameValid (name : Bytes) : Bool :=
  !name.isEmpty && decide (name.length ≤ 64) &&
    name.all fun b => isAsciiAlphanumeric b || b == 95 || b == 45

/-- The names that make a framework take another method than the request line's. -/
def overrideNames : List Bytes :=
  [ascii "_method", ascii "_http_method", ascii "http_method_override",
    ascii "x-http-method-override"]

/-- `str::replace` of each of some ASCII characters by `_`. -/
def underscored (which : List UInt8) (name : Bytes) : Bytes :=
  name.map fun b => if which.contains b then 95 else b

/-- The name up to the first bracket, without leading spaces. -/
def foldedName (name : Bytes) : Bytes :=
  underscored [32, 46] ((name.dropWhile (· == 32)).takeWhile (· != 91))

/-- The name that an unclosed bracket leaves. -/
def fallbackName (name : Bytes) : Bytes :=
  underscored [32, 46, 91] (name.dropWhile (· == 32))

/-- A bracket opens and none closes after it. -/
def malformedArray (name : Bytes) : Bool :=
  name.contains 91 && !(name.dropWhile (· != 91)).contains 93

def overridesMethod (name : Bytes) : Bool := overrideNames.contains (name.map toAsciiLowercase)

def hasControl (text : Bytes) : Bool := (Utf8.chars text).any Utf8.isControl

/-- The folded name of a parameter; the error is a status. -/
def canonicalName (guarded : List Bytes) (name : Bytes) : Except Nat Bytes := do
  ensure (¬(256 < name.length ∨ hasControl name = true)) 400
  ensure (overridesMethod (foldedName name) = false) 400
  ensure (malformedArray name = false ∨
    (fallbackName name ∉ guarded ∧ overridesMethod (fallbackName name) = false)) 400
  ensure (foldedName name ∉ guarded ∨ (nameValid name = true ∧ foldedName name = name)) 400
  .ok (foldedName name)

end RequestBlocks
