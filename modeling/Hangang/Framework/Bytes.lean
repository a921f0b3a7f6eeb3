import Mathlib.Algebra.GroupWithZero.Nat
import Mathlib.Data.List.DropRight

/-! # Byte Strings

    Byte strings are lists of `UInt8`. The module fixes the few operations on
    them that byte-oriented code uses everywhere: literals, ASCII case folding
    and trimming, with the facts the developments over them need. -/

/-- A byte string. -/
abbrev Bytes : Type := List UInt8

namespace Bytes

instance lawfulBEq : LawfulBEq Bytes := inferInstance

/-- The bytes of an ASCII literal. -/
def ascii (s : String) : Bytes := s.toList.map fun c => UInt8.ofNat c.toNat

/-! ## ASCII classes and case folding -/

def isAsciiUppercase (b : UInt8) : Bool := 65 ≤ b && b ≤ 90

def isAsciiLowercase (b : UInt8) : Bool := 97 ≤ b && b ≤ 122

def isAsciiDigit (b : UInt8) : Bool := 48 ≤ b && b ≤ 57

def isAsciiAlphanumeric (b : UInt8) : Bool :=
  isAsciiUppercase b || isAsciiLowercase b || isAsciiDigit b

def toAsciiLowercase (b : UInt8) : UInt8 := if isAsciiUppercase b then b + 32 else b

/-- Equality up to the case of ASCII letters. -/
def eqIgnoreAsciiCase (x y : Bytes) : Bool :=
  x.map toAsciiLowercase == y.map toAsciiLowercase

/-- The string without its longest suffix of `b`s. -/
def trimEndMatches (b : UInt8) (x : Bytes) : Bytes := x.rdropWhile (· == b)

/-- White space within ASCII. -/
def isAsciiWhitespace (b : UInt8) : Bool := b == 32 || (9 ≤ b && b ≤ 13)

/-- The string without the white space at its ends; `str::trim` for ASCII. -/
def trimWhitespace (x : Bytes) : Bytes :=
  (x.dropWhile isAsciiWhitespace).rdropWhile isAsciiWhitespace

/-- What follows `p` in a string that starts with it. -/
def stripPrefix (p x : Bytes) : Option Bytes :=
  if p.isPrefixOf x then some (x.drop p.length) else none

theorem stripPrefix_eq_some {p x t : Bytes} : stripPrefix p x = some t ↔ x = p ++ t := by
  unfold stripPrefix
  constructor
  · intro h
    split at h
    · next hpre =>
      obtain ⟨s, rfl⟩ := List.isPrefixOf_iff_prefix.mp hpre
      rw [List.drop_left, Option.some.injEq] at h
      rw [h]
    · cases h
  · rintro rfl
    rw [if_pos (List.isPrefixOf_iff_prefix.mpr (List.prefix_append p t)), List.drop_left]

/-- The two parts around the first `b`, if there is one. -/
def splitOnce (b : UInt8) : Bytes → Option (Bytes × Bytes)
  | [] => none
  | c :: rest =>
    if c == b then some ([], rest)
    else (splitOnce b rest).map fun p => (c :: p.1, p.2)

theorem splitOnce_eq_none {b : UInt8} {x : Bytes} : splitOnce b x = none ↔ b ∉ x := by
  induction x with
  | nil => simp [splitOnce]
  | cons c rest ih =>
    rw [splitOnce]
    by_cases hc : c = b
    · simp [hc]
    · rw [if_neg (by simpa using hc), Option.map_eq_none_iff, ih, List.mem_cons, not_or]
      exact ⟨fun h => ⟨Ne.symm hc, h⟩, fun h => h.2⟩

theorem splitOnce_eq_some {b : UInt8} {x l r : Bytes} :
    splitOnce b x = some (l, r) ↔ x = l ++ b :: r ∧ b ∉ l := by
  induction x generalizing l with
  | nil => simp [splitOnce]
  | cons c rest ih =>
    rw [splitOnce]
    -- the first byte is the one that is looked for, or belongs to the left part
    by_cases hc : c = b
    · rw [if_pos (by simpa using hc), hc]
      cases l with
      | nil => simp
      | cons d l =>
        simp only [Option.some.injEq, Prod.mk.injEq, List.cons_append, List.cons.injEq,
          List.mem_cons, not_or]
        constructor
        · intro h
          simp at h
        · intro h
          exact absurd h.1.1 h.2.1
    · rw [if_neg (by simpa using hc), Option.map_eq_some_iff]
      cases l with
      | nil =>
        simp only [List.nil_append, List.cons.injEq]
        constructor
        · intro h
          obtain ⟨p, -, hp⟩ := h
          simp at hp
        · intro h
          exact absurd h.1.1 hc
      | cons d l =>
        simp only [Prod.exists, Prod.mk.injEq, List.cons.injEq, List.cons_append, List.mem_cons,
          not_or]
        constructor
        · intro h
          obtain ⟨l', r', hsplit, ⟨rfl, rfl⟩, rfl⟩ := h
          obtain ⟨hrest, hmem⟩ := ih.mp hsplit
          exact ⟨⟨rfl, hrest⟩, Ne.symm hc, hmem⟩
        · intro h
          obtain ⟨⟨rfl, hrest⟩, -, hmem⟩ := h
          exact ⟨l, r, ih.mpr ⟨hrest, hmem⟩, ⟨rfl, rfl⟩, rfl⟩

/-- The parts between the occurrences of `b`, the empty ones included. -/
def splitOn (b : UInt8) : Bytes → List Bytes
  | [] => [[]]
  | c :: rest =>
    if c == b then [] :: splitOn b rest
    else match splitOn b rest with
      | [] => [[c]]
      | part :: parts => (c :: part) :: parts

theorem splitOn_ne_nil (b : UInt8) (x : Bytes) : splitOn b x ≠ [] := by
  cases x with
  | nil => simp [splitOn]
  | cons c rest =>
    rw [splitOn]
    split
    · simp
    · split <;> simp

theorem splitOn_cons_self (b : UInt8) (x : Bytes) : splitOn b (b :: x) = [] :: splitOn b x := by
  simp [splitOn]

/-- A byte that is no separator extends the first part. -/
theorem splitOn_cons_ne {b c : UInt8} (h : c ≠ b) (x : Bytes) :
    ∃ part parts, splitOn b x = part :: parts ∧ splitOn b (c :: x) = (c :: part) :: parts := by
  cases hx : splitOn b x with
  | nil => exact absurd hx (splitOn_ne_nil b x)
  | cons part parts => exact ⟨part, parts, rfl, by simp [splitOn, h, hx]⟩

/-- The parts hold the bytes of the string and no separator. -/
theorem mem_of_mem_splitOn {b : UInt8} {x part : Bytes} (hpart : part ∈ splitOn b x) {c : UInt8}
    (hc : c ∈ part) : c ∈ x ∧ c ≠ b := by
  induction x generalizing part with
  | nil =>
    obtain rfl : part = [] := by simpa [splitOn] using hpart
    exact absurd hc List.not_mem_nil
  | cons d rest ih =>
    by_cases hd : d = b
    · subst hd
      rw [splitOn_cons_self] at hpart
      rcases List.mem_cons.mp hpart with rfl | hpart
      · exact absurd hc List.not_mem_nil
      · obtain ⟨hmem, hne⟩ := ih hpart hc
        exact ⟨List.mem_cons_of_mem d hmem, hne⟩
    · obtain ⟨first, parts, hrest, hcons⟩ := splitOn_cons_ne hd rest
      rw [hcons] at hpart
      rw [hrest] at ih
      rcases List.mem_cons.mp hpart with rfl | hpart
      · rcases List.mem_cons.mp hc with rfl | hc
        · exact ⟨List.mem_cons_self, hd⟩
        · obtain ⟨hmem, hne⟩ := ih List.mem_cons_self hc
          exact ⟨List.mem_cons_of_mem d hmem, hne⟩
      · obtain ⟨hmem, hne⟩ := ih (List.mem_cons_of_mem first hpart) hc
        exact ⟨List.mem_cons_of_mem d hmem, hne⟩

/-- A byte is a separator or in one of the parts. -/
theorem mem_splitOn_of_mem (b : UInt8) {c : UInt8} {x : Bytes} (h : c ∈ x) :
    c = b ∨ ∃ part ∈ splitOn b x, c ∈ part := by
  induction x with
  | nil => cases h
  | cons d rest ih =>
    by_cases hd : d = b
    · subst hd
      rw [splitOn_cons_self]
      rcases List.mem_cons.mp h with rfl | hc
      · exact .inl rfl
      · refine (ih hc).imp_right fun ⟨part, hpart, hmem⟩ => ?_
        exact ⟨part, List.mem_cons_of_mem _ hpart, hmem⟩
    · obtain ⟨first, parts, hrest, hcons⟩ := splitOn_cons_ne hd rest
      rw [hcons]
      rw [hrest] at ih
      rcases List.mem_cons.mp h with rfl | hc
      · exact .inr ⟨_, List.mem_cons_self, List.mem_cons_self⟩
      · refine (ih hc).imp_right fun ⟨part, hpart, hmem⟩ => ?_
        rcases List.mem_cons.mp hpart with rfl | hpart
        · exact ⟨_, List.mem_cons_self, List.mem_cons_of_mem _ hmem⟩
        · exact ⟨part, List.mem_cons_of_mem _ hpart, hmem⟩

/-- A separator cuts a string in two. -/
theorem splitOn_append_cons (b : UInt8) (x y : Bytes) :
    splitOn b (x ++ b :: y) = splitOn b x ++ splitOn b y := by
  induction x with
  | nil => simp [splitOn]
  | cons c x ih =>
    rw [List.cons_append]
    by_cases hc : c = b
    · subst hc
      rw [splitOn_cons_self, splitOn_cons_self, ih, List.cons_append]
    · obtain ⟨part, parts, hx, hcons⟩ := splitOn_cons_ne hc x
      obtain ⟨part', parts', hx', hcons'⟩ := splitOn_cons_ne hc (x ++ b :: y)
      rw [ih, hx, List.cons_append, List.cons.injEq] at hx'
      rw [hcons, hcons', ← hx'.1, ← hx'.2, List.cons_append]

/-- Only a string without separators is in one part. -/
theorem splitOn_eq_singleton {b : UInt8} {x part : Bytes} :
    splitOn b x = [part] ↔ x = part ∧ b ∉ x := by
  induction x generalizing part with
  | nil => simp [splitOn, eq_comm]
  | cons c x ih =>
    by_cases hc : c = b
    · subst hc
      simp [splitOn_cons_self, splitOn_ne_nil]
    · obtain ⟨first, parts, hx, hcons⟩ := splitOn_cons_ne hc x
      rw [hcons]
      constructor
      · intro h
        rw [List.cons.injEq] at h
        obtain ⟨rfl, rfl⟩ := h
        obtain ⟨rfl, hmem⟩ := ih.mp hx
        exact ⟨rfl, by simp [Ne.symm hc, hmem]⟩
      · rintro ⟨rfl, hmem⟩
        have hx' := ih.mpr ⟨rfl, fun h => hmem (List.mem_cons_of_mem c h)⟩
        rw [hx, List.cons.injEq] at hx'
        rw [hx'.1, hx'.2]

/-- Each part but the first comes with a separator. -/
theorem length_eq_sum_splitOn (b : UInt8) (x : Bytes) :
    x.length + 1 = ((splitOn b x).map (·.length + 1)).sum := by
  induction x with
  | nil => simp [splitOn]
  | cons c x ih =>
    by_cases hc : c = b
    · subst hc
      rw [splitOn_cons_self, List.map_cons, List.sum_cons, ← ih, List.length_cons, List.length_nil]
      omega
    · obtain ⟨first, parts, hx, hcons⟩ := splitOn_cons_ne hc x
      rw [hx] at ih
      rw [hcons]
      simp only [List.map_cons, List.sum_cons, List.length_cons] at ih ⊢
      omega

theorem lt_of_isAsciiAlphanumeric {b : UInt8} (h : isAsciiAlphanumeric b = true) : b < 128 := by
  simp only [isAsciiAlphanumeric, isAsciiUppercase, isAsciiLowercase, isAsciiDigit,
    Bool.or_eq_true, Bool.and_eq_true, decide_eq_true_eq, UInt8.le_iff_toNat_le,
    UInt8.reduceToNat] at h
  simp only [UInt8.lt_iff_toNat_lt, UInt8.reduceToNat]
  omega

end Bytes
