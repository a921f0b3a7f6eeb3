import Hangang.Framework.IpAddr

/-! # ASCII Case Folding

    `lower` replaces the upper-case letters of a byte string. A reader that looks
    at letters only up to case gives the same answer for a folded string; the
    readers of addresses are such readers, since hex digits come in both cases. -/

namespace Bytes

/-- `str::to_ascii_lowercase`. -/
def lower (x : Bytes) : Bytes := x.map toAsciiLowercase

@[simp] theorem lower_nil : lower [] = [] := rfl

@[simp] theorem lower_cons (b : UInt8) (x : Bytes) :
    lower (b :: x) = toAsciiLowercase b :: lower x := rfl

@[simp] theorem length_lower (x : Bytes) : (lower x).length = x.length := List.length_map _

theorem eqIgnoreAsciiCase_iff {x y : Bytes} :
    eqIgnoreAsciiCase x y = true ↔ lower x = lower y := beq_iff_eq

/-! ## Bytes -/

theorem toAsciiLowercase_of_not {b : UInt8} (h : isAsciiUppercase b = false) :
    toAsciiLowercase b = b := by
  rw [toAsciiLowercase, h]
  rfl

theorem isAsciiUppercase_iff {b : UInt8} :
    isAsciiUppercase b = true ↔ 65 ≤ b.toNat ∧ b.toNat ≤ 90 := by
  simp [isAsciiUppercase, UInt8.le_iff_toNat_le]

theorem toNat_toAsciiLowercase {b : UInt8} (h : isAsciiUppercase b = true) :
    (toAsciiLowercase b).toNat = b.toNat + 32 := by
  have hle := (isAsciiUppercase_iff.mp h).2
  have h32 : (32 : UInt8).toNat = 32 := rfl
  rw [toAsciiLowercase, if_pos h, UInt8.toNat_add, h32]
  omega

/-- The lower-case form of a letter is a lower-case letter. -/
theorem isAsciiLowercase_toAsciiLowercase {b : UInt8} (h : isAsciiUppercase b = true) :
    isAsciiLowercase (toAsciiLowercase b) = true := by
  have hb := isAsciiUppercase_iff.mp h
  simp only [isAsciiLowercase, UInt8.le_iff_toNat_le, toNat_toAsciiLowercase h,
    Bool.and_eq_true, decide_eq_true_eq, UInt8.reduceToNat]
  omega

@[simp] theorem toAsciiLowercase_idem (b : UInt8) :
    toAsciiLowercase (toAsciiLowercase b) = toAsciiLowercase b := by
  unfold toAsciiLowercase isAsciiUppercase
  grind

/-- A byte that is no letter is only itself. -/
theorem toAsciiLowercase_eq_iff {b c : UInt8} (hupper : isAsciiUppercase c = false)
    (hlower : isAsciiLowercase c = false) : toAsciiLowercase b = c ↔ b = c := by
  constructor
  · intro h
    cases hb : isAsciiUppercase b with
    | true =>
      have hcontra := isAsciiLowercase_toAsciiLowercase hb
      rw [h, hlower] at hcontra
      cases hcontra
    | false => rwa [toAsciiLowercase_of_not hb] at h
  · rintro rfl
    exact toAsciiLowercase_of_not hupper

@[simp] theorem isAsciiDigit_toAsciiLowercase (b : UInt8) :
    isAsciiDigit (toAsciiLowercase b) = isAsciiDigit b := by
  unfold toAsciiLowercase isAsciiUppercase isAsciiDigit
  grind

@[simp] theorem isAsciiAlphanumeric_toAsciiLowercase (b : UInt8) :
    isAsciiAlphanumeric (toAsciiLowercase b) = isAsciiAlphanumeric b := by
  unfold toAsciiLowercase isAsciiAlphanumeric isAsciiUppercase isAsciiLowercase isAsciiDigit
  grind

theorem beq_toAsciiLowercase {b c : UInt8} (hupper : isAsciiUppercase c = false)
    (hlower : isAsciiLowercase c = false) : (toAsciiLowercase b == c) = (b == c) := by
  rw [Bool.eq_iff_iff, beq_iff_eq, beq_iff_eq]
  exact toAsciiLowercase_eq_iff hupper hlower

theorem head?_lower_beq {x : Bytes} {c : UInt8} (hupper : isAsciiUppercase c = false)
    (hlower : isAsciiLowercase c = false) : ((lower x).head? == some c) = (x.head? == some c) := by
  cases x with
  | nil => rfl
  | cons b x => exact beq_toAsciiLowercase hupper hlower

theorem getLast?_lower_beq {x : Bytes} {c : UInt8} (hupper : isAsciiUppercase c = false)
    (hlower : isAsciiLowercase c = false) :
    ((lower x).getLast? == some c) = (x.getLast? == some c) := by
  rw [lower, List.getLast?_map]
  cases x.getLast? with
  | none => rfl
  | some b => exact beq_toAsciiLowercase hupper hlower

/-- Folding does not move a separator that is no letter. -/
theorem splitOn_lower {c : UInt8} (hupper : isAsciiUppercase c = false)
    (hlower : isAsciiLowercase c = false) (x : Bytes) :
    splitOn c (lower x) = (splitOn c x).map lower := by
  induction x with
  | nil => rfl
  | cons b x ih =>
    by_cases hb : b = c
    · subst hb
      rw [lower_cons, toAsciiLowercase_of_not hupper, splitOn_cons_self, splitOn_cons_self, ih]
      rfl
    · have hb' : toAsciiLowercase b ≠ c := fun h => hb ((toAsciiLowercase_eq_iff hupper hlower).mp h)
      obtain ⟨part, parts, hx, hcons⟩ := splitOn_cons_ne hb x
      obtain ⟨part', parts', hx', hcons'⟩ := splitOn_cons_ne hb' (lower x)
      rw [ih, hx, List.map_cons, List.cons.injEq] at hx'
      rw [lower_cons, hcons', hcons, ← hx'.1, ← hx'.2]
      rfl

end Bytes

/-! ## Addresses -/

namespace IpAddr

open Bytes

@[simp] theorem digitValue_lower (radix : Nat) (b : UInt8) :
    digitValue radix (toAsciiLowercase b) = digitValue radix b := by
  cases hb : isAsciiUppercase b with
  | false => rw [toAsciiLowercase_of_not hb]
  | true =>
    -- The letters `A` to `F` have the values of `a` to `f`.
    have hbounds := isAsciiUppercase_iff.mp hb
    have hdigit : isAsciiDigit b = false := by
      simp only [isAsciiDigit, UInt8.le_iff_toNat_le, UInt8.reduceToNat, Bool.and_eq_false_iff,
        decide_eq_false_iff_not]
      omega
    unfold digitValue
    rw [isAsciiDigit_toAsciiLowercase, hdigit]
    simp only [UInt8.le_iff_toNat_le, toNat_toAsciiLowercase hb, UInt8.reduceToNat,
      Bool.and_eq_true, decide_eq_true_eq, Bool.false_eq_true, if_false]
    congr 1
    split_ifs <;> first | rfl | omega

/-- What is left after a reader, folded. -/
def rest {α : Type} : α × Bytes → α × Bytes := Prod.map id lower

theorem readDigits_lower (radix : Nat) (x : Bytes) (count value : Nat) (r : Bytes) :
    readDigits radix (lower x) (count, value, lower r) =
      ((readDigits radix x (count, value, r)).1, (readDigits radix x (count, value, r)).2.1,
        lower (readDigits radix x (count, value, r)).2.2) := by
  induction x generalizing count value r with
  | nil => rfl
  | cons b x ih =>
    rw [lower_cons, readDigits, readDigits, digitValue_lower]
    cases digitValue radix b with
    | none => rfl
    | some d => exact ih (count + 1) (value * radix + d) x

theorem readNumber_lower (radix maxDigits bound : Nat) (zeroPrefix : Bool) (x : Bytes) :
    readNumber radix maxDigits bound zeroPrefix (lower x) =
      (readNumber radix maxDigits bound zeroPrefix x).map rest := by
  unfold readNumber
  rw [readDigits_lower, head?_lower_beq (c := 48) rfl rfl]
  dsimp only
  split
  · rfl
  · split
    · rfl
    · rfl

theorem readChar_lower {c : UInt8} (hupper : isAsciiUppercase c = false)
    (hlower : isAsciiLowercase c = false) (x : Bytes) :
    readChar c (lower x) = (readChar c x).map lower := by
  cases x with
  | nil => rfl
  | cons b x =>
    rw [lower_cons, readChar, readChar, beq_toAsciiLowercase hupper hlower]
    split
    · rfl
    · rfl

/-- A reader of a folded string, followed by another one. -/
theorem bind_rest {α β : Type} {o o' : Option (α × Bytes)}
    {f f' : α × Bytes → Option (β × Bytes)} (ho : o' = o.map rest)
    (hf : ∀ a x, f' (a, lower x) = (f (a, x)).map rest) : o'.bind f' = (o.bind f).map rest := by
  subst ho
  cases o with
  | none => rfl
  | some p => exact hf p.1 p.2

theorem bind_lower {β : Type} {o o' : Option Bytes} {f f' : Bytes → Option (β × Bytes)}
    (ho : o' = o.map lower) (hf : ∀ x, f' (lower x) = (f x).map rest) :
    o'.bind f' = (o.bind f).map rest := by
  subst ho
  cases o with
  | none => rfl
  | some x => exact hf x

theorem readIpv4_lower (x : Bytes) : readIpv4 (lower x) = (readIpv4 x).map rest := by
  unfold readIpv4
  refine bind_rest (readNumber_lower _ _ _ _ _) fun a x => ?_
  refine bind_lower (readChar_lower rfl rfl _) fun x => ?_
  refine bind_rest (readNumber_lower _ _ _ _ _) fun b x => ?_
  refine bind_lower (readChar_lower rfl rfl _) fun x => ?_
  refine bind_rest (readNumber_lower _ _ _ _ _) fun c x => ?_
  refine bind_lower (readChar_lower rfl rfl _) fun x => ?_
  refine bind_rest (readNumber_lower _ _ _ _ _) fun d x => ?_
  rfl

theorem readGroups_lower (room i : Nat) (x : Bytes) :
    readGroups room i (lower x) =
      ((readGroups room i x).1, (readGroups room i x).2.1, lower (readGroups room i x).2.2) := by
  induction room generalizing i x with
  | zero => rfl
  | succ room ih =>
    have hstart : (if i == 0 then some (lower x) else readChar 58 (lower x)) =
        (if i == 0 then some x else readChar 58 x).map lower := by
      split
      · rfl
      · exact readChar_lower rfl rfl x
    rw [readGroups, readGroups, hstart]
    generalize (if i == 0 then some x else readChar 58 x) = start
    cases start with
    | none =>
      simp only [Option.map_none, Option.bind_none, ite_self, lower]
    | some y =>
      dsimp only [Option.map_some, Option.bind_some]
      have hdotted : (if (room == 0) = true then none else readIpv4 (lower y)) =
          (if (room == 0) = true then none else readIpv4 y).map rest := by
        split
        · rfl
        · exact readIpv4_lower y
      rw [hdotted]
      generalize (if (room == 0) = true then none else readIpv4 y) = dotted
      cases dotted with
      | some p => rfl
      | none =>
        dsimp only [Option.map_none]
        rw [readNumber_lower]
        cases readNumber 16 4 65536 true y with
        | none => rfl
        | some p =>
          dsimp only [Option.map_some, rest, Prod.map]
          rw [ih]
          rfl

theorem readIpv6_lower (x : Bytes) : readIpv6 (lower x) = (readIpv6 x).map rest := by
  unfold readIpv6
  rw [readGroups_lower]
  dsimp only
  split
  · rfl
  · split
    · rfl
    · refine bind_lower (readChar_lower rfl rfl _) fun y => ?_
      refine bind_lower (readChar_lower rfl rfl _) fun y => ?_
      rw [readGroups_lower]
      rfl

/-- **Addresses are read up to case.** -/
theorem parse_lower (x : Bytes) : parse (lower x) = parse x := by
  unfold parse
  rw [readIpv6_lower, readIpv4_lower]
  -- Only whether anything is left matters, and folding keeps that.
  rcases readIpv4 x with _ | ⟨o, _ | ⟨b, r⟩⟩
  · rcases readIpv6 x with _ | ⟨g, _ | ⟨b', r'⟩⟩ <;> rfl
  · rfl
  · rcases readIpv6 x with _ | ⟨g, _ | ⟨b', r'⟩⟩ <;> rfl

end IpAddr
