import Hangang.Framework.Bytes
import Mathlib.Algebra.Order.Ring.Nat
import Mathlib.Tactic.Ring

/-! # Length-Prefixed Frames

    A frame is the length of a byte string as eight big-endian bytes, followed by
    the string. A sequence of frames can be taken apart again in one way only, so
    hashing it separates every two sequences of components: `frames_injective`
    is the fact that key derivations rest on.

    * **Big-endian numbers**: `beBytes`, injective below `256 ^ width`.
    * **Length prefixes**: `lengthPrefixed` for any width, with its cancellation rule.
    * **Frames**: `frame` and `frames`, the case of eight bytes.
    * **Hexadecimal digests**: `lowerHex`, injective. -/

namespace Bytes

/-! ## Big-endian numbers -/

/-- The `width` low-order bytes of `n`, the most significant first. -/
def beBytes : Nat → Nat → Bytes
  | 0, _ => []
  | width + 1, n => UInt8.ofNat (n / 256 ^ width) :: beBytes width n

@[simp] theorem length_beBytes (width n : Nat) : (beBytes width n).length = width := by
  induction width with
  | zero => rfl
  | succ width ih => simp [beBytes, ih]

theorem uint8_ofNat_eq_iff (n m : Nat) : UInt8.ofNat n = UInt8.ofNat m ↔ n % 256 = m % 256 := by
  rw [← UInt8.toNat_inj, UInt8.toNat_ofNat', UInt8.toNat_ofNat']

theorem beBytes_eq_iff (width n m : Nat) :
    beBytes width n = beBytes width m ↔ n % 256 ^ width = m % 256 ^ width := by
  induction width with
  | zero => simp [beBytes, Nat.mod_one]
  | succ width ih =>
    rw [beBytes, beBytes, List.cons.injEq, uint8_ofNat_eq_iff, ih, pow_succ]
    constructor
    · intro h
      rw [Nat.mod_mul, Nat.mod_mul, h.1, h.2]
    · intro h
      have hlow : n % 256 ^ width = m % 256 ^ width := by
        have := congrArg (· % 256 ^ width) h
        simpa using this
      rw [Nat.mod_mul, Nat.mod_mul, hlow] at h
      have hhigh := Nat.eq_of_mul_eq_mul_left (Nat.pow_pos (by decide)) (Nat.add_left_cancel h)
      exact ⟨hhigh, hlow⟩

theorem beBytes_inj_of_lt {width n m : Nat} (hn : n < 256 ^ width) (hm : m < 256 ^ width)
    (h : beBytes width n = beBytes width m) : n = m := by
  rw [beBytes_eq_iff, Nat.mod_eq_of_lt hn, Nat.mod_eq_of_lt hm] at h
  exact h

/-- The number that the bytes spell, the most significant first. -/
def ofBeBytes (x : Bytes) : Nat := x.foldl (fun n b => n * 256 + b.toNat) 0

/-! ## Length prefixes -/

/-- The length in `width` bytes, then the bytes. -/
def lengthPrefixed (width : Nat) (value : Bytes) : Bytes := beBytes width value.length ++ value

/-- **Cancellation.** The first component of a string is determined by the string. -/
theorem lengthPrefixed_append_cancel {width : Nat} {v w r s : Bytes}
    (hv : v.length < 256 ^ width) (hw : w.length < 256 ^ width)
    (h : lengthPrefixed width v ++ r = lengthPrefixed width w ++ s) : v = w ∧ r = s := by
  unfold lengthPrefixed at h
  rw [List.append_assoc, List.append_assoc] at h
  have hlen : (beBytes width v.length).length = (beBytes width w.length).length := by simp
  obtain ⟨hcount, hrest⟩ := List.append_inj h hlen
  have hsame : v.length = w.length := beBytes_inj_of_lt hv hw hcount
  exact List.append_inj hrest hsame

/-- **Components are unambiguous.** -/
theorem flatMap_lengthPrefixed_injective {width : Nat} (hwidth : 0 < width) {xs ys : List Bytes}
    (hxs : ∀ x ∈ xs, x.length < 256 ^ width) (hys : ∀ y ∈ ys, y.length < 256 ^ width)
    (h : xs.flatMap (lengthPrefixed width) = ys.flatMap (lengthPrefixed width)) : xs = ys := by
  induction xs generalizing ys with
  | nil =>
    cases ys with
    | nil => rfl
    | cons y ys =>
      -- a component holds at least its length
      have hlen := congrArg List.length h
      simp [lengthPrefixed] at hlen
      omega
  | cons x xs ih =>
    cases ys with
    | nil =>
      have hlen := congrArg List.length h
      simp [lengthPrefixed] at hlen
      omega
    | cons y ys =>
      rw [List.flatMap_cons, List.flatMap_cons] at h
      obtain ⟨hxy, hrest⟩ :=
        lengthPrefixed_append_cancel (hxs x (by simp)) (hys y (by simp)) h
      have htail := ih (fun x' hx' => hxs x' (by simp [hx'])) (fun y' hy' => hys y' (by simp [hy']))
        hrest
      rw [hxy, htail]

/-! ## Frames -/

/-- The length as a `u64` in big-endian order, then the bytes. -/
def frame (value : Bytes) : Bytes := beBytes 8 value.length ++ value

/-- The frames of the components one after the other. -/
def frames (values : List Bytes) : Bytes := values.flatMap frame

@[simp] theorem frames_nil : frames [] = [] := rfl

@[simp] theorem frames_cons (value : Bytes) (values : List Bytes) :
    frames (value :: values) = frame value ++ frames values := rfl

@[simp] theorem frames_append (values values' : List Bytes) :
    frames (values ++ values') = frames values ++ frames values' := by
  simp [frames]

/-- A component whose length is representable, so that its frame can be read
    back. -/
def Framable (value : Bytes) : Prop := value.length < 256 ^ 8

theorem framable_of_length_le {value : Bytes} (n : Nat) (h : value.length ≤ n)
    (hn : n < 256 ^ 8) : Framable value := lt_of_le_of_lt h hn

/-- **Frames are unambiguous.** -/
theorem frames_injective {xs ys : List Bytes} (hxs : ∀ x ∈ xs, Framable x)
    (hys : ∀ y ∈ ys, Framable y) (h : frames xs = frames ys) : xs = ys :=
  flatMap_lengthPrefixed_injective (by decide) hxs hys h

/-! ## Hexadecimal digests -/

/-- One lower-case hexadecimal digit. -/
def hexDigitLower (n : Nat) : UInt8 := if n < 10 then UInt8.ofNat (48 + n) else UInt8.ofNat (87 + n)

/-- Two lower-case digits for each byte. -/
def lowerHex : Bytes → Bytes
  | [] => []
  | b :: rest => hexDigitLower (b.toNat / 16) :: hexDigitLower (b.toNat % 16) :: lowerHex rest

theorem hexDigitLower_inj {n m : Nat} (hn : n < 16) (hm : m < 16)
    (h : hexDigitLower n = hexDigitLower m) : n = m := by
  unfold hexDigitLower at h
  split at h <;> split at h <;> rw [uint8_ofNat_eq_iff] at h <;> omega

theorem length_lowerHex (x : Bytes) : (lowerHex x).length = 2 * x.length := by
  induction x with
  | nil => rfl
  | cons b x ih =>
    rw [lowerHex, List.length_cons, List.length_cons, ih, List.length_cons]
    omega

theorem lowerHex_injective : Function.Injective lowerHex := by
  intro x
  induction x with
  | nil =>
    intro y h
    cases y with
    | nil => rfl
    | cons c y => simp [lowerHex] at h
  | cons b x ih =>
    intro y h
    cases y with
    | nil => simp [lowerHex] at h
    | cons c y =>
      simp only [lowerHex, List.cons.injEq] at h
      obtain ⟨hhigh, hlow, hrest⟩ := h
      have hb := b.toNat_lt
      have hc := c.toNat_lt
      have h16 := hexDigitLower_inj (by omega) (by omega) hhigh
      have h1 := hexDigitLower_inj (by omega) (by omega) hlow
      have hbc : b = c := by
        apply UInt8.toNat_inj.mp
        omega
      rw [hbc, ih hrest]

end Bytes
