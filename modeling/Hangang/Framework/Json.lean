import Hangang.Framework.Bytes
import Mathlib.Algebra.Group.Int.Defs
import Mathlib.Algebra.Group.Nat.Defs

/-! # JSON Values

    Parsed documents and the accessors of `serde_json` on them. A parser and a
    printer are parameters of the developments that need them. -/

/-- A JSON value. The members of an object stand in the order in which they are printed. -/
inductive Json where
  | null
  | bool (value : Bool)
  | int (value : Int)
  /-- A number with a fraction or an exponent, as it is printed. -/
  | float (text : Bytes)
  | string (text : Bytes)
  | array (items : List Json)
  | object (members : List (Bytes × Json))

/-- The members of an object. -/
abbrev JsonObject : Type := List (Bytes × Json)

namespace Json

def asStr : Json → Option Bytes
  | .string text => some text
  | _ => none

def asObject : Json → Option JsonObject
  | .object members => some members
  | _ => none

/-- `Value::get`. -/
def get (value : Json) (name : String) : Option Json :=
  value.asObject.bind fun members => members.lookup (Bytes.ascii name)

/-- `value[name]`, null where there is no such member. -/
def index (value : Json) (name : String) : Json := (value.get name).getD .null

/-- `Value::pointer`, for member names. -/
def pointer (value : Json) : List String → Option Json
  | [] => some value
  | name :: names => (value.get name).bind fun member => member.pointer names

/-- `serde_json::Map::insert`: a member is replaced, or added in the order of the names. -/
def insertMember (name : Bytes) (value : Json) : JsonObject → JsonObject
  | [] => [(name, value)]
  | member :: members =>
    if member.1 = name then (name, value) :: members
    else if name < member.1 then (name, value) :: member :: members
    else member :: insertMember name value members

theorem lookup_insertMember (name : Bytes) (value : Json) (members : JsonObject) :
    (insertMember name value members).lookup name = some value := by
  induction members with
  | nil => simp [insertMember]
  | cons member members ih =>
    rw [insertMember]
    split
    · simp
    · next hne =>
      split
      · simp
      · rw [List.lookup_cons]
        have hbeq : (name == member.1) = false := by simpa using Ne.symm hne
        rw [hbeq]
        exact ih

theorem lookup_insertMember_ne {name other : Bytes} (h : other ≠ name) (value : Json)
    (members : JsonObject) :
    (insertMember name value members).lookup other = members.lookup other := by
  have hbeq : (other == name) = false := by simpa using h
  induction members with
  | nil =>
    rw [insertMember, List.lookup_cons, hbeq]
  | cons member members ih =>
    rw [insertMember]
    split
    · next heq =>
      obtain ⟨key, old⟩ := member
      obtain rfl : key = name := heq
      rw [List.lookup_cons, List.lookup_cons, hbeq]
    · split
      · rw [List.lookup_cons, hbeq]
      · obtain ⟨key, old⟩ := member
        rw [List.lookup_cons, List.lookup_cons, ih]

end Json

namespace JsonObject

def get (object : JsonObject) (name : String) : Option Json := object.lookup (Bytes.ascii name)

end JsonObject
