import Hangang.Framework.Bytes
import Mathlib.Data.Finset.Basic
import Mathlib.Data.Finset.Filter

/-! # Message Fields by Name

    The header fields of a message as programs that read and write them by name
    see them: for every name its values in wire order. The order of the names is
    no part of it, so two messages with the same values under every name have
    equal fields. -/

open Bytes

namespace Http

structure Fields where
  /-- The names that have a value. -/
  names : Finset Bytes
  getAll : Bytes → List Bytes
  mem_names : ∀ name, name ∈ names ↔ getAll name ≠ []

namespace Fields

def empty : Fields := ⟨∅, fun _ => [], by simp⟩

def containsKey (fields : Fields) (name : Bytes) : Bool := !(fields.getAll name).isEmpty

/-- Removes the names that satisfy `p`. -/
def removeWhere (p : Bytes → Bool) (fields : Fields) : Fields where
  names := fields.names.filter fun name => p name = false
  getAll name := if p name then [] else fields.getAll name
  mem_names := by
    intro name
    rw [Finset.mem_filter, fields.mem_names]
    cases p name <;> simp

def remove (fields : Fields) (name : Bytes) : Fields := fields.removeWhere (· == name)

/-- The values of one name. -/
def put (fields : Fields) (name : Bytes) (values : List Bytes) (h : values ≠ []) : Fields where
  names := insert name fields.names
  getAll n := if n = name then values else fields.getAll n
  mem_names := by
    intro n
    rw [Finset.mem_insert, fields.mem_names]
    by_cases hn : n = name
    · simp [hn, h]
    · simp [hn]

/-- `HeaderMap::insert`: replaces all values. -/
def insert (fields : Fields) (name value : Bytes) : Fields :=
  fields.put name [value] (List.cons_ne_nil _ _)

/-- `HeaderMap::append`. -/
def append (fields : Fields) (name value : Bytes) : Fields :=
  fields.put name (fields.getAll name ++ [value]) (List.append_ne_nil_of_right_ne_nil _ (by simp))

def ofList (list : List (Bytes × Bytes)) : Fields :=
  list.foldl (fun fields field => fields.append field.1 field.2) empty

/-! ## Values under a name -/

variable (fields : Fields) (name n : Bytes)

@[simp] theorem getAll_empty : empty.getAll n = [] := rfl

@[simp] theorem getAll_remove :
    (fields.remove name).getAll n = if n = name then [] else fields.getAll n := by
  show (if n == name then [] else fields.getAll n) = _
  simp only [beq_iff_eq]

@[simp] theorem getAll_insert (value : Bytes) :
    (fields.insert name value).getAll n = if n = name then [value] else fields.getAll n := rfl

end Fields

end Http
