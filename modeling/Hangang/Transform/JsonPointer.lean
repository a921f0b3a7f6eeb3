import Hangang.Framework.Decimal
import Hangang.Framework.Except
import Hangang.Framework.Json

/-! # JSON Pointer Edits

    `json_set` and `json_remove` go down a document along a pointer and change the last step.
    A pointer is resolved by the same steps; what an edit does is said by how the pointers of
    the document resolve before and after. -/

open Bytes Except
open Json (insertMember lookup_insertMember lookup_insertMember_ne)

namespace Transform

inductive PointerError where
  /-- "JSON pointer must be empty or start with '/'" -/
  | start
  /-- "invalid '~' escape in JSON pointer" -/
  | escape
  /-- "invalid JSON array index: {token}" -/
  | index (token : Bytes)
  /-- "JSON array index is too large" -/
  | indexTooLarge
  /-- "JSON array index is out of bounds: {index}" -/
  | outOfBounds (index : Nat)
  /-- "JSON pointer parent does not exist: {part}" -/
  | missingParent (token : Bytes)
  /-- "JSON pointer traverses a scalar value" -/
  | traversesScalar
  /-- "JSON pointer parent is a scalar value" -/
  | scalarParent
  /-- "json_remove cannot remove the document root" -/
  | root
  /-- "JSON pointer target does not exist" -/
  | missingTarget
  deriving DecidableEq, Repr

/-! ## Pointers -/

/-- One part, with its escapes decoded. -/
def decodePart : Bytes → Except PointerError Bytes
  | [] => .ok []
  | [126] => .error .escape
  | 126 :: b :: rest =>
    if b = 48 then (decodePart rest).map (126 :: ·)
    else if b = 49 then (decodePart rest).map (47 :: ·)
    else .error .escape
  | b :: rest => (decodePart rest).map (b :: ·)

def parseJsonPointer (pointer : Bytes) : Except PointerError (List Bytes) :=
  match pointer with
  | [] => .ok []
  | b :: rest => if b = 47 then (splitOn 47 rest).mapM decodePart else .error .start

/-- The escapes of RFC 6901. -/
def escapePart (part : Bytes) : Bytes :=
  part.flatMap fun b => if b = 126 then [126, 48] else if b = 47 then [126, 49] else [b]

/-- The pointer with the given parts. -/
def renderPointer (parts : List Bytes) : Bytes := parts.flatMap fun part => 47 :: escapePart part

/-! ## Documents -/

def parseArrayIndex (token : Bytes) (length : Nat) : Except PointerError Nat := do
  ensure (token = [48] ∨ (token.head? ≠ some 48 ∧ token.all isAsciiDigit = true)) (.index token)
  ensure (token ≠ [] ∧ IpAddr.readDecimal token < 2 ^ 64) .indexTooLarge
  ensure (IpAddr.readDecimal token < length) (.outOfBounds (IpAddr.readDecimal token))
  return IpAddr.readDecimal token

/-- One step of `json_parent_mut`. -/
def child (value : Json) (token : Bytes) : Except PointerError Json :=
  match value with
  | .object members => (members.lookup token).elim (.error (.missingParent token)) .ok
  | .array items => do
    let index ← parseArrayIndex token items.length
    (items[index]?).elim (.error (.outOfBounds index)) .ok
  | _ => .error .traversesScalar

/-- What is written through the reference that a step gave. -/
def setChild (value : Json) (token : Bytes) (new : Json) : Json :=
  match value with
  | .object members => .object (insertMember token new members)
  | .array items => .array (items.set (IpAddr.readDecimal token) new)
  | value => value

/-- Changes the value at the end of the parts. -/
def editParent (edit : Json → Except PointerError Json) :
    List Bytes → Json → Except PointerError Json
  | [], value => edit value
  | part :: parts, value => do
    let found ← child value part
    let new ← editParent edit parts found
    return setChild value part new

/-- The last step of `json_set`. -/
def setLast (last : Bytes) (new : Json) (parent : Json) : Except PointerError Json :=
  match parent with
  | .object members => .ok (.object (insertMember last new members))
  | .array items => do
    let index ← parseArrayIndex last items.length
    return .array (items.set index new)
  | _ => .error .scalarParent

/-- The last step of `json_remove`. -/
def removeLast (last : Bytes) (parent : Json) : Except PointerError Json :=
  match parent with
  | .object members => do
    ensure ((members.lookup last).isSome = true) .missingTarget
    return .object (members.filter fun member => member.1 ≠ last)
  | .array items => do
    let index ← parseArrayIndex last items.length
    return .array (items.eraseIdx index)
  | _ => .error .scalarParent

def jsonSet (document : Json) (pointer : Bytes) (value : Json) : Except PointerError Json := do
  let parts ← parseJsonPointer pointer
  match parts.getLast? with
  | none => return value
  | some last => editParent (setLast last value) parts.dropLast document

def jsonRemove (document : Json) (pointer : Bytes) : Except PointerError Json := do
  let parts ← parseJsonPointer pointer
  match parts.getLast? with
  | none => throw .root
  | some last => editParent (removeLast last) parts.dropLast document

/-- What a pointer resolves to. -/
def resolve (value : Json) : List Bytes → Option Json
  | [] => some value
  | part :: parts => (child value part).toOption.bind fun found => resolve found parts

/-! ## Escapes -/

theorem decodePart_cons {b : UInt8} (h : b ≠ 126) (rest : Bytes) :
    decodePart (b :: rest) = (decodePart rest).map (b :: ·) := by
  cases rest with
  | nil => simp [decodePart, h]
  | cons c rest => simp [decodePart, h]

/-- Decoding undoes the escapes. -/
theorem decodePart_escapePart (part : Bytes) : decodePart (escapePart part) = .ok part := by
  induction part with
  | nil => rfl
  | cons b part ih =>
    rw [escapePart, List.flatMap_cons]
    by_cases htilde : b = 126
    · subst htilde
      show (decodePart (escapePart part)).map (126 :: ·) = _
      rw [ih]
      rfl
    · by_cases hslash : b = 47
      · subst hslash
        show (decodePart (escapePart part)).map (47 :: ·) = _
        rw [ih]
        rfl
      · rw [if_neg htilde, if_neg hslash, List.singleton_append, decodePart_cons htilde]
        show (decodePart (escapePart part)).map (b :: ·) = _
        rw [ih]
        rfl

theorem slash_not_mem_escapePart (part : Bytes) : 47 ∉ escapePart part := by
  intro hmem
  obtain ⟨b, -, hb⟩ := List.mem_flatMap.mp hmem
  by_cases htilde : b = 126
  · rw [if_pos htilde] at hb
    simp at hb
  · by_cases hslash : b = 47
    · rw [if_neg htilde, if_pos hslash] at hb
      simp at hb
    · rw [if_neg htilde, if_neg hslash, List.mem_singleton] at hb
      exact hslash hb.symm

/-- What is decoded was escaped, if it has no slash. -/
theorem escapePart_of_decodePart {part decoded : Bytes} (hslash : 47 ∉ part)
    (h : decodePart part = .ok decoded) : escapePart decoded = part := by
  induction part using decodePart.induct generalizing decoded with
  | case1 =>
    cases h
    rfl
  | case2 => cases h
  -- the two escapes, for the tilde and for the slash
  | case3 rest ih =>
    rw [decodePart, if_pos rfl] at h
    obtain ⟨tail, htail, rfl⟩ := map_eq_ok.mp h
    have hrest := ih (fun hmem => hslash (by simp [hmem])) htail
    rw [escapePart, List.flatMap_cons, if_pos rfl]
    show 126 :: 48 :: escapePart tail = _
    rw [hrest]
  | case4 rest hne ih =>
    rw [decodePart, if_neg hne, if_pos rfl] at h
    obtain ⟨tail, htail, rfl⟩ := map_eq_ok.mp h
    have hrest := ih (fun hmem => hslash (by simp [hmem])) htail
    rw [escapePart, List.flatMap_cons, if_neg (by decide), if_pos rfl]
    show 126 :: 49 :: escapePart tail = _
    rw [hrest]
  | case5 b rest hzero hone =>
    rw [decodePart, if_neg hzero, if_neg hone] at h
    cases h
  -- any other byte stands for itself
  | case6 b rest hlast hpair ih =>
    have hb : b ≠ 126 := by
      rintro rfl
      cases rest with
      | nil => exact hlast rfl rfl
      | cons c rest => exact hpair c rest rfl rfl
    rw [decodePart_cons hb] at h
    obtain ⟨tail, htail, rfl⟩ := map_eq_ok.mp h
    have hrest := ih (fun hmem => hslash (List.mem_cons_of_mem _ hmem)) htail
    have hbslash : b ≠ 47 := fun hb' => hslash (hb' ▸ List.mem_cons_self)
    rw [escapePart, List.flatMap_cons, if_neg hb, if_neg hbslash]
    show b :: escapePart tail = _
    rw [hrest]

theorem renderPointer_cons (part : Bytes) (parts : List Bytes) :
    renderPointer (part :: parts) = 47 :: IpAddr.joinWith 47 ((part :: parts).map escapePart) := by
  rw [renderPointer, List.flatMap_cons, List.map_cons, IpAddr.joinWith_cons, List.flatMap_map,
    List.cons_append]

theorem splitOn_joined_escapes (part : Bytes) (parts : List Bytes) :
    splitOn 47 (IpAddr.joinWith 47 ((part :: parts).map escapePart)) =
      (part :: parts).map escapePart := by
  apply IpAddr.splitOn_joinWith
  intro p hp
  obtain ⟨original, -, rfl⟩ := List.mem_map.mp (show p ∈ (part :: parts).map escapePart from hp)
  exact slash_not_mem_escapePart original

theorem mapM_decodePart (parts : List Bytes) :
    (parts.map escapePart).mapM decodePart = .ok parts := by
  induction parts with
  | nil => rfl
  | cons part parts ih =>
    rw [List.map_cons, List.mapM_cons, decodePart_escapePart, ih]
    rfl

theorem parseJsonPointer_render (parts : List Bytes) :
    parseJsonPointer (renderPointer parts) = .ok parts := by
  cases parts with
  | nil => rfl
  | cons part parts =>
    rw [renderPointer_cons, parseJsonPointer, if_pos rfl, splitOn_joined_escapes, mapM_decodePart]

variable {parts parents : List Bytes} {pointer token last : Bytes}
  {value parent parent' document document' : Json}

theorem mapM_escapePart {decoded : List Bytes} (hslash : ∀ part ∈ parts, 47 ∉ part)
    (h : parts.mapM decodePart = .ok decoded) : decoded.map escapePart = parts := by
  induction parts generalizing decoded with
  | nil =>
    cases h
    rfl
  | cons part parts ih =>
    rw [List.mapM_cons, bind_eq_ok] at h
    obtain ⟨first, hfirst, h⟩ := h
    rw [bind_eq_ok] at h
    obtain ⟨rest, hrest, h⟩ := h
    cases h
    rw [List.map_cons, escapePart_of_decodePart (hslash part List.mem_cons_self) hfirst,
      ih (fun other hother => hslash other (List.mem_cons_of_mem _ hother)) hrest]

/-- **A pointer is parsed exactly if it is the rendering of its parts.** -/
theorem parseJsonPointer_eq_ok :
    parseJsonPointer pointer = .ok parts ↔ renderPointer parts = pointer := by
  constructor
  · intro h
    cases pointer with
    | nil =>
      cases h
      rfl
    | cons b rest =>
      rw [parseJsonPointer] at h
      split at h
      · next hb =>
        subst hb
        have hslash : ∀ part ∈ splitOn 47 rest, 47 ∉ part := fun part hpart hmem =>
          (mem_of_mem_splitOn hpart hmem).2 rfl
        have hescaped := mapM_escapePart hslash h
        cases parts with
        | nil => exact absurd hescaped.symm (splitOn_ne_nil 47 rest)
        | cons part parts => rw [renderPointer_cons, hescaped, IpAddr.joinWith_splitOn]
      · cases h
  · rintro rfl
    exact parseJsonPointer_render parts

/-! ## Members and items -/

theorem lookup_filter_ne {name other : Bytes} (members : List (Bytes × Json)) :
    (members.filter fun member => member.1 ≠ name).lookup other =
      if other = name then none else members.lookup other := by
  induction members with
  | nil => simp
  | cons member members ih =>
    obtain ⟨key, value⟩ := member
    by_cases hkey : key = name
    · subst hkey
      rw [List.filter_cons_of_neg (by simp), ih, List.lookup_cons]
      by_cases hother : other = key
      · rw [if_pos hother, if_pos hother]
      · have hbeq : (other == key) = false := by simpa using hother
        rw [if_neg hother, if_neg hother, hbeq]
    · rw [List.filter_cons_of_pos (by simpa using hkey), List.lookup_cons, List.lookup_cons, ih]
      by_cases hother : other = name
      · have hbeq : (other == key) = false := by
          rw [hother]
          simpa using Ne.symm hkey
        simp only [hbeq, if_pos hother]
      · simp only [if_neg hother]

theorem parseArrayIndex_eq_ok {length index : Nat} :
    parseArrayIndex token length = .ok index ↔
      Decimal.Canonical token ∧ index = IpAddr.readDecimal token ∧ index < 2 ^ 64 ∧
        index < length := by
  unfold parseArrayIndex
  rw [bind_eq_ok]
  constructor
  · rintro ⟨_, hform, h⟩
    rw [bind_eq_ok] at h
    obtain ⟨_, hsize, h⟩ := h
    rw [bind_eq_ok] at h
    obtain ⟨_, hbound, h⟩ := h
    cases h
    obtain ⟨hne, hsize⟩ := ensure_eq_ok.mp hsize
    refine ⟨?_, rfl, hsize, ensure_eq_ok.mp hbound⟩
    rcases ensure_eq_ok.mp hform with hzero | ⟨hhead, hall⟩
    · exact .inl hzero
    · exact .inr ⟨hne, hhead, List.all_eq_true.mp hall⟩
  · rintro ⟨hcanonical, rfl, hsize, hbound⟩
    have hne : token ≠ [] := by
      rcases hcanonical with rfl | ⟨hne, -, -⟩
      · exact List.cons_ne_nil _ _
      · exact hne
    have hform : token = [48] ∨ (token.head? ≠ some 48 ∧ token.all isAsciiDigit = true) := by
      rcases hcanonical with hzero | ⟨-, hhead, hall⟩
      · exact .inl hzero
      · exact .inr ⟨hhead, List.all_eq_true.mpr hall⟩
    refine ⟨(), ensure_eq_ok.mpr hform, bind_eq_ok.mpr ⟨(), ensure_eq_ok.mpr ⟨hne, hsize⟩, ?_⟩⟩
    exact bind_eq_ok.mpr ⟨(), ensure_eq_ok.mpr hbound, rfl⟩

/-! ## One step -/

/-- A step into an object or an array. -/
theorem child_eq_ok {found : Json} :
    child value token = .ok found ↔
      (∃ members, value = .object members ∧ members.lookup token = some found) ∨
      ∃ items, value = .array items ∧ Decimal.Canonical token ∧
        IpAddr.readDecimal token < 2 ^ 64 ∧ items[IpAddr.readDecimal token]? = some found := by
  unfold child
  split
  -- an object: the member of the name
  · next members =>
    constructor
    · intro h
      cases hlookup : members.lookup token with
      | none =>
        rw [hlookup] at h
        cases h
      | some value =>
        rw [hlookup] at h
        cases h
        exact .inl ⟨members, rfl, hlookup⟩
    · rintro (⟨_, heq, hlookup⟩ | ⟨_, heq, -⟩)
      · cases heq
        rw [hlookup]
        rfl
      · cases heq
  -- an array: the element at an index in canonical form
  · next items =>
    rw [bind_eq_ok]
    constructor
    · rintro ⟨index, hindex, h⟩
      obtain ⟨hcanonical, rfl, hsize, -⟩ := parseArrayIndex_eq_ok.mp hindex
      refine .inr ⟨items, rfl, hcanonical, hsize, ?_⟩
      cases hget : items[IpAddr.readDecimal token]? with
      | none =>
        rw [hget] at h
        cases h
      | some value =>
        rw [hget] at h
        cases h
        rfl
    · rintro (⟨_, heq, -⟩ | ⟨_, heq, hcanonical, hsize, hget⟩)
      · cases heq
      · cases heq
        obtain ⟨hlt, -⟩ := List.getElem?_eq_some_iff.mp hget
        refine ⟨_, parseArrayIndex_eq_ok.mpr ⟨hcanonical, rfl, hsize, hlt⟩, ?_⟩
        rw [hget]
        rfl
  -- no other value has children
  · next hobject harray =>
    constructor
    · intro h
      cases h
    · rintro (⟨members, heq, -⟩ | ⟨items, heq, -⟩)
      · exact absurd heq (hobject members)
      · exact absurd heq (harray items)

/-- Two values that have the same children under a name. -/
theorem child_toOption_congr {value' : Json}
    (h : ∀ found, child value' token = .ok found ↔ child value token = .ok found) :
    (child value' token).toOption = (child value token).toOption := by
  apply Option.ext
  intro found
  rw [toOption_eq_some, toOption_eq_some, h]

/-- What is written under one name is found there, and nothing else changes. -/
structure Puts (value : Json) (token : Bytes) (new value' : Json) : Prop where
  same : child value' token = .ok new
  others : ∀ other, other ≠ token →
    (child value' other).toOption = (child value other).toOption

theorem puts_object (members : List (Bytes × Json)) (token : Bytes) (new : Json) :
    Puts (.object members) token new (.object (insertMember token new members)) := by
  refine ⟨child_eq_ok.mpr (.inl ⟨_, rfl, lookup_insertMember _ _ _⟩), fun other hne => ?_⟩
  simp only [child, lookup_insertMember_ne hne]

theorem puts_array {items : List Json} (hcanonical : Decimal.Canonical token)
    (hsize : IpAddr.readDecimal token < 2 ^ 64) (hlt : IpAddr.readDecimal token < items.length)
    (new : Json) :
    Puts (.array items) token new (.array (items.set (IpAddr.readDecimal token) new)) := by
  refine ⟨child_eq_ok.mpr (.inr ⟨_, rfl, hcanonical, hsize, List.getElem?_set_self hlt⟩),
    fun other hne => child_toOption_congr fun found => ?_⟩
  rw [child_eq_ok, child_eq_ok]
  constructor
  · rintro (⟨_, heq, -⟩ | ⟨_, heq, hother, hother', hget⟩)
    · cases heq
    · cases heq
      have hindex : IpAddr.readDecimal token ≠ IpAddr.readDecimal other := fun heq =>
        hne (Decimal.eq_of_readDecimal_eq hother hcanonical heq.symm)
      rw [List.getElem?_set_ne hindex] at hget
      exact .inr ⟨items, rfl, hother, hother', hget⟩
  · rintro (⟨_, heq, -⟩ | ⟨_, heq, hother, hother', hget⟩)
    · cases heq
    · cases heq
      have hindex : IpAddr.readDecimal token ≠ IpAddr.readDecimal other := fun heq =>
        hne (Decimal.eq_of_readDecimal_eq hother hcanonical heq.symm)
      exact .inr ⟨_, rfl, hother, hother', (List.getElem?_set_ne hindex).trans hget⟩

theorem setChild_puts {found : Json} (h : child value token = .ok found) (new : Json) :
    Puts value token new (setChild value token new) := by
  rcases child_eq_ok.mp h with ⟨members, rfl, -⟩ | ⟨items, rfl, hcanonical, hsize, hget⟩
  · exact puts_object members token new
  · obtain ⟨hlt, -⟩ := List.getElem?_eq_some_iff.mp hget
    exact puts_array hcanonical hsize hlt new

theorem setLast_puts {new : Json} (h : setLast last new parent = .ok parent') :
    Puts parent last new parent' := by
  unfold setLast at h
  split at h
  · cases h
    exact puts_object _ last new
  · rw [bind_eq_ok] at h
    obtain ⟨index, hindex, h⟩ := h
    cases h
    obtain ⟨hcanonical, rfl, hsize, hlt⟩ := parseArrayIndex_eq_ok.mp hindex
    exact puts_array hcanonical hsize hlt new
  · cases h

/-! ## Edits -/

theorem resolve_append (value : Json) (parts rest : List Bytes) :
    resolve value (parts ++ rest) = (resolve value parts).bind fun found => resolve found rest := by
  induction parts generalizing value with
  | nil => rfl
  | cons part parts ih =>
    rw [List.cons_append, resolve, resolve, Option.bind_assoc]
    simp only [ih]

/-- Every pointer that is neither a prefix nor an extension of the given one resolves as
    before. -/
def Framed (parts : List Bytes) (document document' : Json) : Prop :=
  ∀ other, ¬ parts <+: other → ¬ other <+: parts →
    resolve document' other = resolve document other

/-- **Frame**: an edit changes the value at the end of its parts, and nothing beside it. -/
structure Edited (edit : Json → Except PointerError Json) (parts : List Bytes)
    (document document' parent parent' : Json) : Prop where
  before : resolve document parts = some parent
  edit : edit parent = .ok parent'
  after : resolve document' parts = some parent'
  framed : Framed parts document document'

theorem editParent_edited {edit : Json → Except PointerError Json}
    (h : editParent edit parts document = .ok document') :
    ∃ parent parent', Edited edit parts document document' parent parent' := by
  induction parts generalizing document document' with
  | nil => exact ⟨document, document', rfl, h, rfl, fun _ hpre _ => absurd List.nil_prefix hpre⟩
  | cons part parts ih =>
    rw [editParent, bind_eq_ok] at h
    obtain ⟨found, hfound, h⟩ := h
    rw [bind_eq_ok] at h
    obtain ⟨new, hnew, h⟩ := h
    cases h
    obtain ⟨parent, parent', hbefore, hedit, hafter, hframed⟩ := ih hnew
    obtain ⟨hsame, hothers⟩ := setChild_puts hfound new
    have hstep : (child document part).toOption = some found := toOption_eq_some.mpr hfound
    have hstep' : (child (setChild document part new) part).toOption = some new :=
      toOption_eq_some.mpr hsame
    refine ⟨parent, parent', ?_, hedit, ?_, fun pointer hpre hext => ?_⟩
    · rw [resolve, hstep]
      exact hbefore
    · rw [resolve, hstep']
      exact hafter
    · cases pointer with
      | nil => exact absurd List.nil_prefix hext
      | cons other pointer =>
        rw [resolve, resolve]
        by_cases hother : other = part
        · subst hother
          rw [hstep, hstep', Option.bind_some, Option.bind_some]
          refine hframed pointer (fun hle => hpre ?_) fun hle => hext ?_
          · exact List.cons_prefix_cons.mpr ⟨rfl, hle⟩
          · exact List.cons_prefix_cons.mpr ⟨rfl, hle⟩
        · rw [hothers other hother]

/-- A pointer beside a target leaves the way to its parent, or goes to another child of it. -/
theorem leaves_or_sibling {pointer : List Bytes} (hpre : ¬ parents ++ [last] <+: pointer)
    (hext : ¬ pointer <+: parents ++ [last]) :
    (¬ parents <+: pointer ∧ ¬ pointer <+: parents) ∨
      ∃ other rest, other ≠ last ∧ pointer = parents ++ other :: rest := by
  by_cases hparents : parents <+: pointer
  · right
    obtain ⟨tail, rfl⟩ := hparents
    cases tail with
    | nil =>
      rw [List.append_nil] at hext
      exact absurd (List.prefix_append parents [last]) hext
    | cons other rest =>
      refine ⟨other, rest, fun hother => hpre ?_, rfl⟩
      rw [hother, List.prefix_append_right_inj]
      exact ⟨rest, rfl⟩
  · exact .inl ⟨hparents, fun hle => hext (hle.trans (List.prefix_append parents [last]))⟩

/-- An edit that keeps the other children of the parent keeps all beside the target. -/
theorem Edited.framed_child {edit : Json → Except PointerError Json}
    (h : Edited edit parents document document' parent parent')
    (hothers : ∀ other, other ≠ last →
      (child parent' other).toOption = (child parent other).toOption) :
    Framed (parents ++ [last]) document document' := by
  intro pointer hpre hext
  rcases leaves_or_sibling hpre hext with ⟨hleaves, hleaves'⟩ | ⟨other, rest, hother, rfl⟩
  · exact h.framed pointer hleaves hleaves'
  · rw [resolve_append, resolve_append, h.before, h.after, Option.bind_some, Option.bind_some,
      resolve, resolve, hothers other hother]

theorem resolve_concat (h : resolve document parents = some parent) :
    resolve document (parents ++ [last]) = (child parent last).toOption := by
  rw [resolve_append, h, Option.bind_some, resolve]
  cases (child parent last).toOption <;> rfl

/-! ## Set -/

/-- **Set**: the pointer resolves to the value, and all beside it is as before. -/
theorem jsonSet_spec (h : jsonSet document pointer value = .ok document') :
    ∃ parts, parseJsonPointer pointer = .ok parts ∧ resolve document' parts = some value ∧
      Framed parts document document' := by
  rw [jsonSet, bind_eq_ok] at h
  obtain ⟨parts, hparts, h⟩ := h
  refine ⟨parts, hparts, ?_⟩
  cases hlast : parts.getLast? with
  | none =>
    rw [hlast] at h
    cases h
    obtain rfl := List.getLast?_eq_none_iff.mp hlast
    exact ⟨rfl, fun _ hpre _ => absurd List.nil_prefix hpre⟩
  | some last =>
    rw [hlast] at h
    obtain ⟨parent, parent', hedited⟩ := editParent_edited h
    obtain ⟨hsame, hothers⟩ := setLast_puts hedited.edit
    rw [← List.dropLast_append_getLast? last hlast]
    refine ⟨?_, hedited.framed_child hothers⟩
    rw [resolve_concat hedited.after]
    exact toOption_eq_some.mpr hsame

/-! ## Remove -/

/-- What the last step of a removal can do. -/
theorem removeLast_cases (h : removeLast last parent = .ok parent') :
    (∃ members value, parent = .object members ∧ members.lookup last = some value ∧
      parent' = .object (members.filter fun member => member.1 ≠ last)) ∨
    ∃ items index, parent = .array items ∧ parseArrayIndex last items.length = .ok index ∧
      parent' = .array (items.eraseIdx index) := by
  unfold removeLast at h
  split at h
  · next members =>
    rw [bind_eq_ok] at h
    obtain ⟨_, hsome, h⟩ := h
    cases h
    obtain ⟨value, hvalue⟩ := Option.isSome_iff_exists.mp (ensure_eq_ok.mp hsome)
    exact .inl ⟨members, value, rfl, hvalue, rfl⟩
  · next items =>
    rw [bind_eq_ok] at h
    obtain ⟨index, hindex, h⟩ := h
    cases h
    exact .inr ⟨items, index, rfl, hindex, rfl⟩
  · cases h

/-- A member was taken out of an object: its pointer no longer resolves, and all beside it is
    as before. -/
structure MemberRemoved (parents : List Bytes) (last : Bytes) (document document' : Json)
    (members members' : List (Bytes × Json)) : Prop where
  before : resolve document parents = some (.object members)
  after : resolve document' parents = some (.object members')
  present : (members.lookup last).isSome = true
  gone : resolve document' (parents ++ [last]) = none
  others : ∀ name, name ≠ last → members'.lookup name = members.lookup name
  framed : Framed (parents ++ [last]) document document'

/-- An item was taken out of an array: the items before it stay, those after it move down by
    one, and all beside the array is as before. -/
structure ItemRemoved (parents : List Bytes) (last : Bytes) (document document' : Json)
    (items items' : List Json) (index : Nat) : Prop where
  before : resolve document parents = some (.array items)
  after : resolve document' parents = some (.array items')
  place : parseArrayIndex last items.length = .ok index
  length : items'.length + 1 = items.length
  earlier : ∀ k, k < index → items'[k]? = items[k]?
  later : ∀ k, index ≤ k → items'[k]? = items[k + 1]?
  framed : Framed parents document document'

theorem jsonRemove_spec (h : jsonRemove document pointer = .ok document') :
    ∃ parents last, parseJsonPointer pointer = .ok (parents ++ [last]) ∧
      ((∃ members members', MemberRemoved parents last document document' members members') ∨
        ∃ items items' index, ItemRemoved parents last document document' items items' index) := by
  rw [jsonRemove, bind_eq_ok] at h
  obtain ⟨parts, hparts, h⟩ := h
  cases hlast : parts.getLast? with
  | none =>
    rw [hlast] at h
    cases h
  | some last =>
    rw [hlast] at h
    obtain ⟨parent, parent', hedited⟩ := editParent_edited h
    refine ⟨parts.dropLast, last, ?_, ?_⟩
    · rw [List.dropLast_append_getLast? last hlast]
      exact hparts
    · rcases removeLast_cases hedited.edit with ⟨members, value, rfl, hvalue, rfl⟩ |
        ⟨items, index, rfl, hindex, rfl⟩
      · left
        refine ⟨members, _, hedited.before, hedited.after, ?_, ?_, fun name hname => ?_,
          hedited.framed_child fun other hother => ?_⟩
        · rw [hvalue]
          rfl
        · rw [resolve_concat hedited.after]
          simp only [child, lookup_filter_ne, if_pos, Option.elim_none]
          rfl
        · rw [lookup_filter_ne, if_neg hname]
        · simp only [child, lookup_filter_ne, if_neg hother]
      · right
        obtain ⟨-, -, -, hlt⟩ := parseArrayIndex_eq_ok.mp hindex
        refine ⟨items, _, index, hedited.before, hedited.after, hindex, ?_, fun k hk => ?_,
          fun k hk => ?_, hedited.framed⟩
        · rw [List.length_eraseIdx_of_lt hlt]
          omega
        · rw [List.getElem?_eraseIdx_of_lt hk]
        · rw [List.getElem?_eraseIdx_of_ge hk]

/-- **Pointer edits.** A pointer is parsed exactly if it is the escaped text of its parts;
    a value that was set is found at its pointer, a member that was removed is not, an item
    that was removed lets the later ones move down, and all the rest resolves as before. -/
theorem json_pointer_edits :
    (∀ pointer parts, parseJsonPointer pointer = .ok parts ↔ renderPointer parts = pointer) ∧
    (∀ document pointer value document', jsonSet document pointer value = .ok document' →
      ∃ parts, parseJsonPointer pointer = .ok parts ∧ resolve document' parts = some value ∧
        Framed parts document document') ∧
    ∀ document pointer document', jsonRemove document pointer = .ok document' →
      ∃ parents last, parseJsonPointer pointer = .ok (parents ++ [last]) ∧
        ((∃ members members', MemberRemoved parents last document document' members members') ∨
          ∃ items items' index,
            ItemRemoved parents last document document' items items' index) :=
  ⟨fun _ _ => parseJsonPointer_eq_ok, fun _ _ _ _ h => jsonSet_spec h, fun _ _ _ h =>
    jsonRemove_spec h⟩

/-- Items after the removed one, and a member with a slash in its name. -/
theorem json_pointer_edits_items :
    jsonRemove (.object [(ascii "a/b", .array [.int 1, .int 2, .int 3])]) (ascii "/a~1b/0") =
        .ok (.object [(ascii "a/b", .array [.int 2, .int 3])]) ∧
      ∃ parents last, parseJsonPointer (ascii "/a~1b/0") = .ok (parents ++ [last]) ∧
        ((∃ members members', MemberRemoved parents last
            (.object [(ascii "a/b", .array [.int 1, .int 2, .int 3])])
            (.object [(ascii "a/b", .array [.int 2, .int 3])]) members members') ∨
          ∃ items items' index, ItemRemoved parents last
            (.object [(ascii "a/b", .array [.int 1, .int 2, .int 3])])
            (.object [(ascii "a/b", .array [.int 2, .int 3])]) items items' index) :=
  have hremove : jsonRemove (.object [(ascii "a/b", .array [.int 1, .int 2, .int 3])])
      (ascii "/a~1b/0") = .ok (.object [(ascii "a/b", .array [.int 2, .int 3])]) := rfl
  ⟨hremove, json_pointer_edits.2.2 _ _ _ hremove⟩

end Transform
