import Hangang.Framework.Utf8
import Mathlib.Data.List.Forall2
import Mathlib.Logic.Relation

/-! # Canonical Request Paths

    `resource_policy::canonical_path` decodes a path once and refuses every
    path that an origin server could read in more than one way. The readings of
    an origin are the steps of `OriginStep`: it may decode escapes, drop dot
    segments, merge slashes, turn backslashes into slashes and cut the path at
    a delimiter, in any order and any number of times.

    The point of the module is `reading_decodes`: whatever an origin makes of an
    accepted path, decoding it once more gives the canonical form. The invariant
    that carries the induction over the readings is `decodeOnce q = .ok d`, with
    the canonical form `d` fixed; on strings with that property every step other
    than decoding changes nothing. -/

open Bytes

namespace ResourcePolicy

def maxPath : Nat := 2048

/-- The ways `canonical_path` refuses a path, one for each message. -/
inductive PathError where
  /-- "resource path must start with / and contain at most 2048 bytes" -/
  | shape
  /-- "invalid resource path escape" -/
  | escape
  /-- "ambiguous or unsupported resource path byte" -/
  | byte
  /-- The decoded path is not UTF-8. -/
  | utf8
  /-- "resource path contains Unicode control character" -/
  | control
  /-- "resource path has repeated separators" -/
  | separators
  /-- "resource path has dot segment" -/
  | dotSegment
  deriving DecidableEq, Repr

/-- `resource_policy::hex_digit`. -/
def hexDigit (b : UInt8) : Option UInt8 :=
  if 48 ≤ b && b ≤ 57 then some (b - 48)
  else if 97 ≤ b && b ≤ 102 then some (b - 97 + 10)
  else if 65 ≤ b && b ≤ 70 then some (b - 65 + 10)
  else none

/-- The bytes no decoded path may contain: `\`, `%`, `?`, `#`, `;` and controls. -/
def isForbidden (b : UInt8) : Bool :=
  b == 92 || b == 37 || b == 63 || b == 35 || b == 59 || b ≤ 31 || b == 127

/-- The decoding loop of `canonical_path`. A slash must be written as itself. -/
def decodeOnce : Bytes → Except PathError Bytes
  | [] => .ok []
  | b :: rest =>
    if b == 37 then
      match rest with
      | h :: l :: rest =>
        match hexDigit h, hexDigit l with
        | some hi, some lo =>
          let decoded := hi <<< 4 ||| lo
          if isForbidden decoded || decoded == 47 then .error .byte
          else (decodeOnce rest).map (decoded :: ·)
        | _, _ => .error .escape
      | _ => .error .escape
    else if isForbidden b then .error .byte
    else (decodeOnce rest).map (b :: ·)

/-- `output.contains("//")`. -/
def hasDoubleSlash : Bytes → Bool
  | [] => false
  | b :: rest => (b == 47 && rest.head? == some 47) || hasDoubleSlash rest

def isDotSegment (s : Bytes) : Bool := s == [46] || s == [46, 46]

/-- `resource_policy::canonical_path`. -/
def canonicalPath (path : Bytes) : Except PathError Bytes :=
  if !(path.head? == some 47 && path.length ≤ maxPath) then .error .shape
  else match decodeOnce path with
    | .error e => .error e
    | .ok output =>
      match Utf8.decode output with
      | none => .error .utf8
      | some cs =>
        if cs.any Utf8.isControl then .error .control
        else if hasDoubleSlash output then .error .separators
        else if (splitOn 47 output).any isDotSegment then .error .dotSegment
        else .ok output

/-! ## How an origin may read a path -/

/-- Every escape replaced by its byte; what is not an escape stays. -/
def percentDecode : Bytes → Bytes
  | [] => []
  | b :: rest =>
    if b == 37 then
      match rest with
      | h :: l :: rest' =>
        match hexDigit h, hexDigit l with
        | some hi, some lo => (hi <<< 4 ||| lo) :: percentDecode rest'
        | _, _ => b :: percentDecode (h :: l :: rest')
      | rest' => b :: percentDecode rest'
    else b :: percentDecode rest

def mergeSlashes (x : Bytes) : Bytes :=
  x.foldr (fun b acc => if b == 47 && acc.head? == some 47 then acc else b :: acc) []

def backslashToSlash (x : Bytes) : Bytes := x.map fun b => if b == 92 then 47 else b

/-- The path before the first `;`, `?` or `#`. -/
def truncate (x : Bytes) : Bytes := x.takeWhile fun b => !(b == 59 || b == 63 || b == 35)

/-- The segments joined by slashes again. -/
def joinSegments : List Bytes → Bytes
  | [] => []
  | [s] => s
  | s :: rest => s ++ 47 :: joinSegments rest

/-- Dot segments dropped from a list of segments; `acc` holds the kept ones, the
    last one first. A dot segment at the end leaves a trailing slash, and `..`
    never leaves the root. -/
def dropDots : List Bytes → List Bytes → List Bytes
  | acc, [] => acc.reverse
  | acc, s :: rest =>
    if s == [46] then
      if rest.isEmpty then ([] :: acc).reverse else dropDots acc rest
    else if s == [46, 46] then
      let up := if acc.length ≤ 1 then acc else acc.tail
      if rest.isEmpty then ([] :: up).reverse else dropDots up rest
    else dropDots (s :: acc) rest

def removeDotSegments (x : Bytes) : Bytes := joinSegments (dropDots [] (splitOn 47 x))

/-- One thing an origin may do to a path. Escapes may be decoded all at once or
    one at a time. -/
inductive OriginStep : Bytes → Bytes → Prop where
  | percentDecode (x : Bytes) : OriginStep x (percentDecode x)
  | decodeEscape (before after : Bytes) {h l hi lo : UInt8} :
      hexDigit h = some hi → hexDigit l = some lo →
      OriginStep (before ++ 37 :: h :: l :: after) (before ++ (hi <<< 4 ||| lo) :: after)
  | removeDotSegments (x : Bytes) : OriginStep x (removeDotSegments x)
  | mergeSlashes (x : Bytes) : OriginStep x (mergeSlashes x)
  | backslashToSlash (x : Bytes) : OriginStep x (backslashToSlash x)
  | truncate (x : Bytes) : OriginStep x (truncate x)

/-- The paths an origin may end up serving for a request path: any finite
    sequence of steps. -/
abbrev Reading : Bytes → Bytes → Prop := Relation.ReflTransGen OriginStep

/-! ## What one decoding step does -/

/-- The runs of the decoding loop: each byte stands for itself or begins an
    escape of an allowed byte. -/
inductive Decodes : Bytes → Bytes → Prop where
  | nil : Decodes [] []
  | raw {b : UInt8} {x d : Bytes} :
      b ≠ 37 → isForbidden b = false → Decodes x d → Decodes (b :: x) (b :: d)
  | escape {h l hi lo : UInt8} {x d : Bytes} :
      hexDigit h = some hi → hexDigit l = some lo →
      isForbidden (hi <<< 4 ||| lo) = false → hi <<< 4 ||| lo ≠ 47 →
      Decodes x d → Decodes (37 :: h :: l :: x) ((hi <<< 4 ||| lo) :: d)

variable {x d : Bytes}

theorem decodeOnce_of_decodes (h : Decodes x d) : decodeOnce x = .ok d := by
  induction h with
  | nil => rfl
  | raw hb hforb _ ih =>
    rw [decodeOnce.eq_def]
    simp [hb, hforb, ih, Except.map]
  | escape hh hl hforb hslash _ ih =>
    rw [decodeOnce.eq_def]
    simp [hh, hl, hforb, hslash, ih, Except.map]

theorem decodes_of_decodeOnce (h : decodeOnce x = .ok d) : Decodes x d := by
  fun_induction decodeOnce x generalizing d with
  | case1 =>
    cases h
    exact .nil
  | case3 b hb h' l rest hi lo hl hh decoded hok =>
    rename_i ih
    rw [beq_iff_eq] at hb
    simp only [Bool.or_eq_true, beq_iff_eq, not_or, Bool.not_eq_true] at hok
    cases hrest : decodeOnce rest with
    | error e => rw [hrest] at h; cases h
    | ok d' =>
      rw [hrest] at h
      cases h
      exact hb ▸ .escape hh hl hok.1 hok.2 (ih hrest)
  | case7 b rest hb hok =>
    rename_i ih
    rw [beq_iff_eq] at hb
    cases hrest : decodeOnce rest with
    | error e => rw [hrest] at h; cases h
    | ok d' =>
      rw [hrest] at h
      cases h
      exact .raw hb (by simpa using hok) (ih hrest)
  | case2 | case4 | case5 | case6 => cases h

theorem decodeOnce_eq_ok : decodeOnce x = .ok d ↔ Decodes x d :=
  ⟨decodes_of_decodeOnce, decodeOnce_of_decodes⟩

/-- What an accepted path satisfies; the checks on the decoded text are not
    needed below. -/
theorem canonicalPath_eq_ok {path : Bytes} (h : canonicalPath path = .ok d) :
    Decodes path d ∧ path.head? = some 47 ∧ hasDoubleSlash d = false ∧
      ∀ s ∈ splitOn 47 d, isDotSegment s = false := by
  unfold canonicalPath at h
  split at h
  · cases h
  · next hshape =>
    split at h
    · cases h
    · next output hdec =>
      split at h
      · cases h
      · split at h
        · cases h
        · split at h
          · cases h
          · next hdouble =>
            split at h
            · cases h
            · next hdots =>
              cases h
              refine ⟨decodeOnce_eq_ok.mp hdec, ?_, by simpa using hdouble, ?_⟩
              · simp only [Bool.not_eq_true, Bool.not_eq_false', Bool.and_eq_true,
                  beq_iff_eq] at hshape
                exact hshape.1
              · simpa using hdots

/-! ## Facts about decoding, each by induction on the run of the loop -/

theorem Decodes.not_forbidden (h : Decodes x d) :
    ∀ b ∈ d, isForbidden b = false := by
  induction h with
  | nil => simp
  | raw _ hforb _ ih => simpa [hforb] using ih
  | escape _ _ hforb _ _ ih => simpa [hforb] using ih

/-- The canonical form is its own canonical form. -/
theorem Decodes.self (h : Decodes x d) : Decodes d d := by
  induction h with
  | nil => exact .nil
  | raw hb hforb _ ih => exact .raw hb hforb ih
  | escape _ _ hforb _ _ ih =>
    refine .raw ?_ hforb ih
    rintro heq
    rw [heq] at hforb
    exact absurd hforb (by decide)

theorem hexDigit_not_forbidden {b v : UInt8} (h : hexDigit b = some v) :
    isForbidden b = false ∧ b ≠ 47 := by
  have hrange : (48 ≤ b ∧ b ≤ 57) ∨ (97 ≤ b ∧ b ≤ 102) ∨ (65 ≤ b ∧ b ≤ 70) := by
    unfold hexDigit at h
    grind
  unfold isForbidden
  rcases hrange with hr | hr | hr <;> grind

theorem hexDigit_percent : hexDigit 37 = none := by decide

/-- No byte that an origin treats specially occurs in an accepted path, even
    undecoded. Only `%` may. -/
theorem Decodes.raw_not_forbidden (h : Decodes x d) :
    ∀ b ∈ x, b ≠ 37 → isForbidden b = false := by
  induction h with
  | nil => simp
  | raw _ hforb _ ih =>
    intro c hc hne
    rcases List.mem_cons.mp hc with rfl | hc
    · exact hforb
    · exact ih c hc hne
  | escape hh hl _ _ _ ih =>
    intro c hc hne
    simp only [List.mem_cons] at hc
    rcases hc with rfl | rfl | rfl | hc
    · exact absurd rfl hne
    · exact (hexDigit_not_forbidden hh).1
    · exact (hexDigit_not_forbidden hl).1
    · exact ih c hc hne

/-- A slash is written as itself, so the two strings begin with one together. -/
theorem Decodes.head_slash (h : Decodes x d) :
    x.head? = some 47 ↔ d.head? = some 47 := by
  cases h with
  | nil => simp
  | raw => simp
  | escape _ _ _ hslash => simp [hslash]

theorem Decodes.hasDoubleSlash_eq (h : Decodes x d) :
    hasDoubleSlash x = hasDoubleSlash d := by
  induction h with
  | nil => rfl
  | @raw b x d hb hforb htail ih =>
    have hhead : (x.head? == some 47) = (d.head? == some 47) := by
      rw [Bool.eq_iff_iff, beq_iff_eq, beq_iff_eq]
      exact htail.head_slash
    simp only [hasDoubleSlash, ih, hhead]
  | @escape h' l hi lo x d hh hl hforb hslash htail ih =>
    have hl' : (l == 47) = false := by simpa using (hexDigit_not_forbidden hl).2
    have hh' : (h' == 47) = false := by simpa using (hexDigit_not_forbidden hh).2
    have hc : (hi <<< 4 ||| lo == 47) = false := by simpa using hslash
    simp [hasDoubleSlash, hl', hh', hc, ih]

theorem Decodes.percentDecode_eq (h : Decodes x d) : percentDecode x = d := by
  induction h with
  | nil => rfl
  | raw hb _ _ ih =>
    rw [percentDecode.eq_def]
    simp [hb, ih]
  | escape hh hl _ _ _ ih =>
    rw [percentDecode.eq_def]
    simp [hh, hl, ih]

/-- The segments are decoded one by one. -/
theorem Decodes.segments (h : Decodes x d) :
    List.Forall₂ Decodes (splitOn 47 x) (splitOn 47 d) := by
  induction h with
  | nil => exact .cons .nil .nil
  | @raw b x d hb hforb _ ih =>
    by_cases hslash : b = 47
    · subst hslash
      rw [splitOn_cons_self, splitOn_cons_self]
      exact .cons .nil ih
    · obtain ⟨s, ss, hs, hbs⟩ := splitOn_cons_ne hslash x
      obtain ⟨t, ts, ht, hbt⟩ := splitOn_cons_ne hslash d
      rw [hs, ht] at ih
      rw [hbs, hbt]
      cases ih with
      | cons hhead htail => exact .cons (.raw hb hforb hhead) htail
  | @escape h' l hi lo x d hh hl hforb hslash _ ih =>
    -- neither `%` nor a hex digit separates segments
    obtain ⟨s, ss, hs, hs₁⟩ := splitOn_cons_ne (hexDigit_not_forbidden hl).2 x
    obtain ⟨s', ss', hs', hs₂⟩ := splitOn_cons_ne (hexDigit_not_forbidden hh).2 (l :: x)
    obtain ⟨s'', ss'', hs'', hs₃⟩ := splitOn_cons_ne (show (37 : UInt8) ≠ 47 by decide)
      (h' :: l :: x)
    obtain ⟨t, ts, ht, ht₁⟩ := splitOn_cons_ne hslash d
    rw [hs₁, List.cons.injEq] at hs'
    rw [hs₂, List.cons.injEq] at hs''
    rw [hs, ht] at ih
    rw [hs₃, ht₁, ← hs''.1, ← hs''.2, ← hs'.1, ← hs'.2]
    cases ih with
    | cons hhead htail => exact .cons (.escape hh hl hforb hslash hhead) htail

/-- A dot segment is its own decoding. -/
theorem Decodes.dotSegment {s t : Bytes} (h : Decodes s t) (hdot : isDotSegment s = true) :
    t = s := by
  have heq := h.percentDecode_eq
  unfold isDotSegment at hdot
  simp only [Bool.or_eq_true, beq_iff_eq] at hdot
  rcases hdot with rfl | rfl
  · exact heq.symm
  · exact heq.symm

theorem Decodes.no_dotSegment (h : Decodes x d) (hd : ∀ s ∈ splitOn 47 d, isDotSegment s = false) :
    ∀ s ∈ splitOn 47 x, isDotSegment s = false := by
  intro s hs
  obtain ⟨t, ht, hst⟩ : ∃ t ∈ splitOn 47 d, Decodes s t := by
    obtain ⟨i, hi, rfl⟩ := List.mem_iff_getElem.mp hs
    have hlen := h.segments.length_eq
    exact ⟨(splitOn 47 d)[i], List.getElem_mem _, h.segments.get hi (hlen ▸ hi)⟩
  cases hdot : isDotSegment s with
  | false => rfl
  | true => rw [← hst.dotSegment hdot, hd t ht] at hdot; cases hdot

/-- An escape is never cut by another one, so decoding one of them first changes
    nothing. -/
theorem Decodes.decodeEscape {before after d : Bytes} {h l hi lo : UInt8}
    (hh : hexDigit h = some hi) (hl : hexDigit l = some lo)
    (hdec : Decodes (before ++ 37 :: h :: l :: after) d) :
    Decodes (before ++ (hi <<< 4 ||| lo) :: after) d := by
  match before, hdec with
  | [], hdec =>
    cases hdec with
    | raw hb => exact absurd rfl hb
    | escape hh' hl' hforb hslash htail =>
      rw [hh, Option.some.injEq] at hh'
      rw [hl, Option.some.injEq] at hl'
      subst hh' hl'
      refine .raw ?_ hforb htail
      intro heq
      rw [heq] at hforb
      exact absurd hforb (by decide)
  | b :: before, hdec =>
    rw [List.cons_append] at hdec ⊢
    generalize hx : before ++ 37 :: h :: l :: after = x at hdec
    cases hdec with
    | raw hb hforb htail =>
      subst hx
      exact .raw hb hforb (decodeEscape hh hl htail)
    | escape hh' hl' hforb hslash htail =>
      -- the two digits of this escape lie before the other escape
      match before with
      | [] =>
        rw [List.nil_append, List.cons.injEq] at hx
        rw [← hx.1, hexDigit_percent] at hh'
        cases hh'
      | [c] =>
        simp only [List.cons_append, List.nil_append, List.cons.injEq] at hx
        rw [← hx.2.1, hexDigit_percent] at hl'
        cases hl'
      | c :: c' :: before =>
        simp only [List.cons_append, List.cons.injEq] at hx
        obtain ⟨rfl, rfl, rfl⟩ := hx
        exact .escape hh' hl' hforb hslash (decodeEscape hh hl htail)

/-- A part without escapes is copied. -/
theorem Decodes.append_of_plain {y : Bytes} (hx : 37 ∉ x) (h : Decodes (x ++ y) d) :
    ∃ d', Decodes y d' ∧ d = x ++ d' := by
  induction x generalizing d with
  | nil => exact ⟨d, h, rfl⟩
  | cons b x ih =>
    simp only [List.mem_cons, not_or] at hx
    rw [List.cons_append] at h
    generalize hz : x ++ y = z at h
    cases h with
    | raw hb hforb htail =>
      subst hz
      obtain ⟨d', hd', rfl⟩ := ih hx.2 htail
      exact ⟨d', hd', rfl⟩
    | escape => exact absurd rfl hx.1

/-! ## The readings of an accepted path -/

theorem mergeSlashes_of_no_double (h : hasDoubleSlash x = false) :
    mergeSlashes x = x := by
  induction x with
  | nil => rfl
  | cons b x ih =>
    simp only [hasDoubleSlash, Bool.or_eq_false_iff] at h
    have hrec : mergeSlashes x = x := ih h.2
    rw [mergeSlashes, List.foldr_cons, ← mergeSlashes, hrec, h.1]
    rfl

theorem backslashToSlash_of_clean (h : 92 ∉ x) : backslashToSlash x = x := by
  unfold backslashToSlash
  conv => rhs; rw [← List.map_id x]
  refine List.map_congr_left fun b hb => ?_
  have hne : (b == 92) = false := by
    rw [beq_eq_false_iff_ne]
    rintro rfl
    exact h hb
  rw [hne]
  rfl

theorem truncate_of_clean (h : ∀ b ∈ x, b ≠ 37 → isForbidden b = false) :
    truncate x = x := by
  refine List.takeWhile_eq_self_iff.mpr fun b hb => ?_
  by_cases hp : b = 37
  · subst hp; rfl
  · have hforb := h b hb hp
    unfold isForbidden at hforb
    simp only [Bool.or_eq_false_iff, beq_eq_false_iff_ne] at hforb
    simp [hforb]

theorem joinSegments_splitOn (x : Bytes) : joinSegments (splitOn 47 x) = x := by
  induction x with
  | nil => rfl
  | cons b x ih =>
    by_cases hslash : b = 47
    · subst hslash
      rw [splitOn_cons_self]
      cases hs : splitOn 47 x with
      | nil => exact absurd hs (splitOn_ne_nil 47 x)
      | cons s ss => rw [joinSegments, ← hs, ih]; rfl; simp
    · obtain ⟨s, ss, hs, hbs⟩ := splitOn_cons_ne hslash x
      rw [hbs]
      rw [hs] at ih
      cases ss with
      | nil => simpa [joinSegments] using ih
      | cons s' ss => simpa [joinSegments] using ih

theorem dropDots_of_no_dotSegment {acc segs : List Bytes}
    (h : ∀ s ∈ segs, isDotSegment s = false) : dropDots acc segs = acc.reverse ++ segs := by
  induction segs generalizing acc with
  | nil => simp [dropDots]
  | cons s segs ih =>
    have hs := h s List.mem_cons_self
    simp only [isDotSegment, Bool.or_eq_false_iff] at hs
    rw [dropDots, hs.1, hs.2]
    simp [ih fun t ht => h t (List.mem_cons_of_mem _ ht)]

/-- **One step of an origin** keeps the canonical form of a string. -/
theorem OriginStep.decodes {y : Bytes} (hstep : OriginStep x y) (h : Decodes x d)
    (hdouble : hasDoubleSlash d = false) (hdots : ∀ s ∈ splitOn 47 d, isDotSegment s = false) :
    Decodes y d := by
  cases hstep with
  | percentDecode => rw [h.percentDecode_eq]; exact h.self
  | decodeEscape before after hh hl => exact h.decodeEscape hh hl
  | removeDotSegments =>
    rw [ResourcePolicy.removeDotSegments, dropDots_of_no_dotSegment (h.no_dotSegment hdots)]
    simpa [joinSegments_splitOn] using h
  | mergeSlashes => rw [mergeSlashes_of_no_double (h.hasDoubleSlash_eq.trans hdouble)]; exact h
  | backslashToSlash =>
    rw [backslashToSlash_of_clean]
    · exact h
    · intro hmem
      exact absurd (h.raw_not_forbidden 92 hmem (by decide)) (by decide)
  | truncate => rw [truncate_of_clean h.raw_not_forbidden]; exact h

/-- **Every reading** of an accepted path has the canonical form of the path. -/
theorem reading_decodes {path q : Bytes} (h : canonicalPath path = .ok d) (hread : Reading path q) :
    Decodes q d := by
  obtain ⟨hdec, -, hdouble, hdots⟩ := canonicalPath_eq_ok h
  induction hread with
  | refl => exact hdec
  | tail _ hstep ih => exact hstep.decodes ih hdouble hdots

end ResourcePolicy
