import Hangang.Framework.CaseFold
import Hangang.HostMatch

/-! # Host Patterns and Case

    Neither the case of a pattern nor that of a host makes a difference to
    `host_match::matches`: not for names, not for addresses, and not for the
    automaton of a label. -/

open Bytes

namespace HostMatch

@[simp] theorem isGlob_lower (x : Bytes) : isGlob (lower x) = isGlob x := by
  unfold isGlob lower
  rw [List.any_map]
  congr 1
  funext b
  show (toAsciiLowercase b == 42 || toAsciiLowercase b == 63) = _
  rw [beq_toAsciiLowercase rfl rfl, beq_toAsciiLowercase rfl rfl]

@[simp] theorem isAscii_lower (x : Bytes) : isAscii (lower x) = isAscii x := by
  unfold isAscii lower
  rw [List.all_map]
  congr 1
  funext b
  show decide (toAsciiLowercase b < 128) = decide (b < 128)
  cases hb : isAsciiUppercase b with
  | false => rw [toAsciiLowercase_of_not hb]
  | true =>
    have hbounds := isAsciiUppercase_iff.mp hb
    simp only [UInt8.lt_iff_toNat_lt, toNat_toAsciiLowercase hb, UInt8.reduceToNat,
      decide_eq_decide]
    omega

@[simp] theorem parseIp_lower (x : Bytes) : parseIp (lower x) = parseIp x := by
  unfold parseIp
  rw [IpAddr.parse_lower]
  congr 1
  cases x with
  | nil => rfl
  | cons b x =>
    by_cases hb : b = 91
    · subst hb
      show (if (lower x).getLast? == some 93 then IpAddr.parse (lower x).dropLast else none) =
        (if x.getLast? == some 93 then IpAddr.parse x.dropLast else none)
      rw [getLast?_lower_beq rfl rfl]
      have hdrop : (lower x).dropLast = lower x.dropLast := by simp [lower, List.map_dropLast]
      rw [hdrop, IpAddr.parse_lower]
    · have hb' : toAsciiLowercase b ≠ 91 := fun h => hb ((toAsciiLowercase_eq_iff rfl rfl).mp h)
      rw [lower_cons]
      split
      · next heq => exact absurd (List.cons.inj heq).1 hb'
      · split
        · next heq => exact absurd (List.cons.inj heq).1 hb
        · rfl

@[simp] theorem validLabels_lower (x : Bytes) (wildcards : Bool) :
    validLabels (lower x) wildcards = validLabels x wildcards := by
  unfold validLabels
  rw [splitOn_lower rfl rfl, List.all_map]
  congr 1
  funext label
  have hall : ((lower label).all fun b =>
        isAsciiAlphanumeric b || b == 45 || (wildcards && (b == 42 || b == 63))) =
      label.all fun b =>
        isAsciiAlphanumeric b || b == 45 || (wildcards && (b == 42 || b == 63)) := by
    rw [lower, List.all_map]
    congr 1
    funext b
    simp only [Function.comp_apply, isAsciiAlphanumeric_toAsciiLowercase]
    rw [beq_toAsciiLowercase rfl rfl, beq_toAsciiLowercase rfl rfl, beq_toAsciiLowercase rfl rfl]
  have hempty : (lower label).isEmpty = label.isEmpty := by cases label <;> rfl
  simp only [Function.comp_apply, bne, hall, hempty, length_lower, head?_lower_beq (c := 45) rfl rfl,
    getLast?_lower_beq (c := 45) rfl rfl]

/-! ## The label automaton -/

@[simp] theorem characterIndex_lower (b : UInt8) :
    characterIndex (toAsciiLowercase b) = characterIndex b := by
  unfold characterIndex
  dsimp only
  rw [toAsciiLowercase_idem]
  split
  · rfl
  · split
    · next hdigit =>
      -- A digit has no case.
      have hb : isAsciiUppercase b = false := by
        by_contra hupper
        have := isAsciiLowercase_toAsciiLowercase (Bool.not_eq_false _ ▸ hupper)
        contradiction
      rw [toAsciiLowercase_of_not hb]
    · rfl

theorem compactStars_lower (compact x : Bytes) :
    compactStars (lower compact) (lower x) = (compactStars compact x).map lower := by
  induction x generalizing compact with
  | nil => rfl
  | cons b x ih =>
    rw [lower_cons, compactStars, compactStars, beq_toAsciiLowercase rfl rfl,
      getLast?_lower_beq rfl rfl, length_lower]
    split
    · exact ih compact
    · split
      · have happend : lower compact ++ [toAsciiLowercase b] = lower (compact ++ [b]) := by
          simp [lower]
        rw [happend]
        exact ih (compact ++ [b])
      · rfl

theorem buildMasks_lower (masks : Masks) (index : Nat) (x : Bytes) :
    buildMasks masks index (lower x) = buildMasks masks index x := by
  induction x generalizing masks index with
  | nil => rfl
  | cons b x ih =>
    rw [lower_cons, buildMasks, buildMasks, beq_toAsciiLowercase rfl rfl,
      beq_toAsciiLowercase rfl rfl, characterIndex_lower]
    simp only [ih]

theorem advance_lower (masks : Masks) (states : UInt64) (x : Bytes) :
    advance masks states (lower x) = advance masks states x := by
  induction x generalizing states with
  | nil => rfl
  | cons b x ih =>
    rw [lower_cons, advance, advance, characterIndex_lower]
    simp only [ih]

theorem matchLabel_lower (pattern host : Bytes) :
    matchLabel (lower pattern) (lower host) = matchLabel pattern host := by
  unfold matchLabel
  rw [show compactStars [] (lower pattern) = (compactStars [] pattern).map lower from
    compactStars_lower [] pattern]
  cases compactStars [] pattern with
  | none => rfl
  | some compact =>
    simp only [Option.map_some, Option.bind_eq_bind, Option.bind_some, buildMasks_lower,
      advance_lower, length_lower]

theorem matchLabels_lower (patterns hosts : List Bytes) :
    matchLabels (patterns.map lower) (hosts.map lower) = matchLabels patterns hosts := by
  induction patterns generalizing hosts with
  | nil => cases hosts <;> rfl
  | cons pattern patterns ih =>
    cases hosts with
    | nil => rfl
    | cons host hosts =>
      rw [List.map_cons, List.map_cons, matchLabels, matchLabels, matchLabel_lower, ih]

/-! ## Matching -/

theorem matchesChecked_lower (pattern host : Bytes) :
    matchesChecked (lower pattern) (lower host) = matchesChecked pattern host := by
  unfold matchesChecked
  have hempty : ∀ x : Bytes, (lower x).isEmpty = x.isEmpty := by
    intro x
    cases x <;> rfl
  have hcase : eqIgnoreAsciiCase (lower pattern) (lower host) =
      eqIgnoreAsciiCase pattern host := by
    unfold eqIgnoreAsciiCase lower
    simp only [List.map_map]
    congr 1 <;> (congr 1; funext b; exact toAsciiLowercase_idem b)
  simp only [hempty, isAscii_lower, isGlob_lower, parseIp_lower, length_lower, hcase,
    validLabels_lower, splitOn_lower (c := 46) rfl rfl, matchLabels_lower]

/-- **Case does not matter** to a host pattern, on either side. -/
theorem patternMatches_congr {pattern pattern' host host' : Bytes}
    (hpattern : lower pattern = lower pattern') (hhost : lower host = lower host') :
    patternMatches pattern host = patternMatches pattern' host' := by
  unfold patternMatches
  rw [← matchesChecked_lower pattern, ← matchesChecked_lower pattern', hpattern, hhost]

end HostMatch
