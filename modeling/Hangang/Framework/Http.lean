import Hangang.Framework.Bytes
import Mathlib.Data.List.Nodup
import Mathlib.Data.List.Perm.Basic
import Mathlib.Algebra.Group.Nat.Defs

/-! # HTTP Message Parts

    The data types of an HTTP library as programs see them. A header map is a
    multimap from normalised names to the values in wire order; its names come in
    some order that says nothing, so every function of a map worth having is
    invariant under `HeaderMap.Reordered`. A target has one of the three forms a
    request can carry, which the structure records as facts about its parts. -/

open Bytes

namespace Http

/-- A string in memory: its length fits a signed machine word. -/
structure Str where
  bytes : Bytes
  fits : bytes.length < 2 ^ 63
  deriving DecidableEq, Repr

/-! ## Header maps -/

/-- Each name once, in iteration order, with its values in wire order. -/
structure HeaderMap where
  entries : List (Bytes × List Bytes)
  nodup : (entries.map Prod.fst).Nodup
  nonempty : ∀ e ∈ entries, e.2 ≠ []
  deriving DecidableEq, Repr

namespace HeaderMap

def keys (headers : HeaderMap) : List Bytes := headers.entries.map Prod.fst

def getAll (headers : HeaderMap) (name : Bytes) : List Bytes :=
  (headers.entries.lookup name).getD []

/-- The two maps hold the same fields and differ at most in the order of the
    names. -/
def Reordered (a b : HeaderMap) : Prop := a.entries.Perm b.entries

theorem lookup_of_mem {entries : List (Bytes × List Bytes)}
    (hnodup : (entries.map Prod.fst).Nodup) {name : Bytes} {values : List Bytes}
    (hmem : (name, values) ∈ entries) : entries.lookup name = some values := by
  induction entries with
  | nil => simp at hmem
  | cons e entries ih =>
    obtain ⟨name', values'⟩ := e
    rw [List.map_cons, List.nodup_cons] at hnodup
    rw [List.lookup_cons]
    rcases List.mem_cons.mp hmem with heq | hmem
    · rw [Prod.mk.injEq] at heq
      simp [heq.1, heq.2]
    · have hne : name ≠ name' := by
        intro heq
        apply hnodup.1
        exact List.mem_map.mpr ⟨(name, values), hmem, heq⟩
      have hbeq : (name == name') = false := beq_eq_false_iff_ne.mpr hne
      rw [hbeq]
      exact ih hnodup.2 hmem

theorem getAll_of_mem (headers : HeaderMap) {name : Bytes} {values : List Bytes}
    (hmem : (name, values) ∈ headers.entries) : headers.getAll name = values := by
  rw [getAll, lookup_of_mem headers.nodup hmem, Option.getD_some]

theorem getAll_of_notMem (headers : HeaderMap) {name : Bytes} (h : name ∉ headers.keys) :
    headers.getAll name = [] := by
  rw [getAll, List.lookup_eq_none_iff.mpr, Option.getD_none]
  intro e he
  have hne : name ≠ e.1 := by
    intro heq
    exact h (heq ▸ List.mem_map_of_mem he)
  simpa using hne

theorem mem_entries (headers : HeaderMap) {name : Bytes} (h : name ∈ headers.keys) :
    (name, headers.getAll name) ∈ headers.entries := by
  obtain ⟨e, he, rfl⟩ := List.mem_map.mp h
  have hvalues : headers.getAll e.1 = e.2 := headers.getAll_of_mem he
  rw [hvalues]
  exact he

theorem mem_keys_iff (headers : HeaderMap) (name : Bytes) :
    name ∈ headers.keys ↔ headers.getAll name ≠ [] := by
  constructor
  · intro h
    exact headers.nonempty _ (headers.mem_entries h)
  · intro h
    by_contra hmem
    exact h (headers.getAll_of_notMem hmem)

theorem Reordered.keys {a b : HeaderMap} (h : Reordered a b) : a.keys.Perm b.keys :=
  h.map Prod.fst

theorem Reordered.getAll {a b : HeaderMap} (h : Reordered a b) (name : Bytes) :
    a.getAll name = b.getAll name := by
  by_cases hmem : name ∈ a.keys
  · have he := a.mem_entries hmem
    rw [b.getAll_of_mem (h.mem_iff.mp he)]
  · have hmem' : name ∉ b.keys := by
      intro hb
      exact hmem (h.keys.mem_iff.mpr hb)
    rw [a.getAll_of_notMem hmem, b.getAll_of_notMem hmem']

end HeaderMap

/-- The bytes of a field name. -/
def isTokenByte (b : UInt8) : Bool :=
  isAsciiAlphanumeric b || (ascii "!#$%&'*+-.^_`|~").contains b

/-- `HeaderName::from_bytes`: a token of at most 65535 bytes, normalised to lower
    case. -/
def headerName (x : Bytes) : Option Bytes :=
  if !x.isEmpty && x.length ≤ 65535 && x.all isTokenByte then some (x.map toAsciiLowercase)
  else none

/-- `HeaderValue::to_str`: visible ASCII and tabs only. -/
def toStr (value : Bytes) : Option Bytes :=
  if value.all fun b => (32 ≤ b && b < 127) || b == 9 then some value else none

theorem eq_of_toStr {value text : Bytes} (h : toStr value = some text) : value = text := by
  unfold toStr at h
  split at h
  · exact Option.some.inj h
  · cases h

/-! ## Request targets -/

/-- A request target in origin, absolute or authority form. A scheme or an
    authority that is there is not empty, and the path is missing in authority
    form only. -/
structure Uri where
  scheme : Option Str
  authority : Option Str
  pathAndQuery : Option Str
  scheme_nonempty : ∀ s ∈ scheme, s.bytes ≠ []
  authority_nonempty : ∀ s ∈ authority, s.bytes ≠ []
  form : pathAndQuery = none ↔ scheme = none ∧ authority ≠ none

end Http
