import Hangang.Framework.IpText
import Mathlib.Data.Nat.Digits.Lemmas

/-! # Decimal Numbers Without Leading Zeros

    A number has one decimal text without leading zeros, so different texts of that form
    are different numbers. `print` writes it. -/

open Bytes IpAddr

namespace Decimal

/-- Digits, without a leading zero unless it is the only one. -/
def Canonical (x : Bytes) : Prop :=
  x = [48] ∨ (x ≠ [] ∧ x.head? ≠ some 48 ∧ ∀ b ∈ x, isAsciiDigit b = true)

def value (b : UInt8) : Nat := b.toNat - 48

theorem readDecimal_eq_ofDigits (x : Bytes) :
    readDecimal x = Nat.ofDigits 10 (x.map value).reverse := by
  induction x using List.reverseRecOn with
  | nil => rfl
  | append_singleton x b ih =>
    rw [readDecimal, List.foldl_append, List.map_append, List.reverse_append]
    show readDecimal x * 10 + value b = Nat.ofDigits 10 (value b :: (x.map value).reverse)
    rw [Nat.ofDigits_cons, ih, Nat.mul_comm, Nat.add_comm]

theorem isAsciiDigit_iff {b : UInt8} : isAsciiDigit b = true ↔ 48 ≤ b.toNat ∧ b.toNat ≤ 57 := by
  simp [isAsciiDigit, UInt8.le_iff_toNat_le]

/-- A text with a leading digit other than zero is read back from its number. -/
theorem digits_readDecimal {x : Bytes} (hne : x ≠ []) (hhead : x.head? ≠ some 48)
    (hall : ∀ b ∈ x, isAsciiDigit b = true) :
    Nat.digits 10 (readDecimal x) = (x.map value).reverse := by
  rw [readDecimal_eq_ofDigits]
  refine Nat.digits_ofDigits 10 (by decide) _ (fun d hd => ?_) fun hne' => ?_
  · rw [List.mem_reverse, List.mem_map] at hd
    obtain ⟨b, hb, rfl⟩ := hd
    have hdigit := isAsciiDigit_iff.mp (hall b hb)
    unfold value
    omega
  · cases x with
    | nil => exact absurd rfl hne
    | cons b rest =>
      have hdigit := isAsciiDigit_iff.mp (hall b List.mem_cons_self)
      have hzero : b.toNat ≠ 48 := by
        intro h
        apply hhead
        rw [List.head?_cons, UInt8.toNat_inj.mp (show b.toNat = (48 : UInt8).toNat from h)]
      simp only [List.map_cons, List.reverse_cons, List.getLast_append_singleton]
      unfold value
      omega

/-- The values of digits determine them. -/
theorem map_value {x : Bytes} (h : ∀ b ∈ x, isAsciiDigit b = true) :
    (x.map value).map (fun d => UInt8.ofNat (d + 48)) = x := by
  rw [List.map_map]
  refine (List.map_congr_left fun b hb => ?_).trans (List.map_id x)
  have hdigit := isAsciiDigit_iff.mp (h b hb)
  have hvalue : b.toNat - 48 + 48 = b.toNat := by omega
  show UInt8.ofNat (b.toNat - 48 + 48) = b
  rw [hvalue, UInt8.ofNat_toNat]

/-- **Canonical texts of one number are equal.** -/
theorem eq_of_readDecimal_eq {x y : Bytes} (hx : Canonical x) (hy : Canonical y)
    (h : readDecimal x = readDecimal y) : x = y := by
  have hzero : readDecimal [48] = 0 := rfl
  have hpositive : ∀ {z : Bytes}, z ≠ [] → z.head? ≠ some 48 →
      (∀ b ∈ z, isAsciiDigit b = true) → readDecimal z ≠ 0 := by
    intro z hne hhead hall hz
    have hdigits := digits_readDecimal hne hhead hall
    rw [hz, Nat.digits_zero, eq_comm, List.reverse_eq_nil_iff, List.map_eq_nil_iff] at hdigits
    exact hne hdigits
  rcases hx with rfl | ⟨hxne, hxhead, hxall⟩
  · rcases hy with rfl | ⟨hyne, hyhead, hyall⟩
    · rfl
    · exact absurd (h.symm.trans hzero) (hpositive hyne hyhead hyall)
  · rcases hy with rfl | ⟨hyne, hyhead, hyall⟩
    · exact absurd (h.trans hzero) (hpositive hxne hxhead hxall)
    · have hmap : x.map value = y.map value := by
        rw [← List.reverse_inj, ← digits_readDecimal hxne hxhead hxall,
          ← digits_readDecimal hyne hyhead hyall, h]
      rw [← map_value hxall, ← map_value hyall, hmap]

/-! ## Printing -/

/-- The decimal text of a number. -/
def print (n : Nat) : Bytes :=
  if n = 0 then [48] else ((Nat.digits 10 n).map fun d => UInt8.ofNat (d + 48)).reverse

end Decimal
