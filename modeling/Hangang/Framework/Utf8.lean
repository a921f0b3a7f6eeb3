import Hangang.Framework.Bytes
import Mathlib.Tactic.Common

/-! # UTF-8

    The decoder of well-formed UTF-8: the shortest encoding only, no surrogates
    and nothing above U+10FFFF. It is a structural recursion on the bytes, so
    that validity of a concrete string can be computed. -/

namespace Utf8

/-- A continuation byte. -/
def isCont (b : UInt8) : Bool := 0x80 ≤ b && b ≤ 0xBF

/-- The second bytes allowed after the first byte of a three-byte sequence:
    no overlong forms after `E0`, no surrogates after `ED`. -/
def second3 (b0 b1 : UInt8) : Bool :=
  if b0 == 0xE0 then 0xA0 ≤ b1 && b1 ≤ 0xBF
  else if b0 == 0xED then 0x80 ≤ b1 && b1 ≤ 0x9F
  else isCont b1

/-- The second bytes allowed after the first byte of a four-byte sequence. -/
def second4 (b0 b1 : UInt8) : Bool :=
  if b0 == 0xF0 then 0x90 ≤ b1 && b1 ≤ 0xBF
  else if b0 == 0xF4 then 0x80 ≤ b1 && b1 ≤ 0x8F
  else isCont b1

/-- The payload of a continuation byte. -/
def low (b : UInt8) : Nat := b.toNat % 64

/-- The scalar values a byte string encodes, if it is well formed. -/
def decode : Bytes → Option (List Char)
  | [] => some []
  | b0 :: rest =>
    if b0 < 0x80 then (decode rest).map (Char.ofNat b0.toNat :: ·)
    else if 0xC2 ≤ b0 && b0 ≤ 0xDF then
      match rest with
      | b1 :: rest =>
        if isCont b1 then
          (decode rest).map (Char.ofNat (b0.toNat % 32 * 64 + low b1) :: ·)
        else none
      | _ => none
    else if 0xE0 ≤ b0 && b0 ≤ 0xEF then
      match rest with
      | b1 :: b2 :: rest =>
        if second3 b0 b1 && isCont b2 then
          (decode rest).map (Char.ofNat (b0.toNat % 16 * 4096 + low b1 * 64 + low b2) :: ·)
        else none
      | _ => none
    else if 0xF0 ≤ b0 && b0 ≤ 0xF4 then
      match rest with
      | b1 :: b2 :: b3 :: rest =>
        if second4 b0 b1 && isCont b2 && isCont b3 then
          (decode rest).map
            (Char.ofNat (b0.toNat % 8 * 262144 + low b1 * 4096 + low b2 * 64 + low b3) :: ·)
        else none
      | _ => none
    else none

/-- Well-formed UTF-8. -/
def isValid (x : Bytes) : Bool := (decode x).isSome

/-- The scalar values of a string that is known to be well formed. -/
def chars (x : Bytes) : List Char := (decode x).getD []

/-- The control characters, general category `Cc`. -/
def isControl (c : Char) : Bool :=
  c.toNat < 0x20 || (0x7F ≤ c.toNat && c.toNat ≤ 0x9F)

/-- The characters with the property `White_Space`. -/
def isWhitespace (c : Char) : Bool :=
  (9 ≤ c.toNat && c.toNat ≤ 13) || c.toNat == 0x20 || c.toNat == 0x85 || c.toNat == 0xA0 ||
    c.toNat == 0x1680 || (0x2000 ≤ c.toNat && c.toNat ≤ 0x200A) || c.toNat == 0x2028 ||
    c.toNat == 0x2029 || c.toNat == 0x202F || c.toNat == 0x205F || c.toNat == 0x3000

/-- A string without the white space at its two ends. -/
def trim (x : Bytes) : Bytes :=
  (((chars x).dropWhile isWhitespace).rdropWhile isWhitespace).flatMap String.utf8EncodeChar

/-! ## Cutting at an ASCII byte -/

theorem decode_cons_ascii {a : UInt8} (ha : a < 0x80) (y : Bytes) :
    decode (a :: y) = (decode y).map (Char.ofNat a.toNat :: ·) := by
  rw [decode.eq_def]
  simp [ha]

/-- ASCII is well-formed UTF-8. -/
theorem isValid_of_ascii {x : Bytes} (h : ∀ b ∈ x, decide (b < 0x80) = true) :
    isValid x = true := by
  induction x with
  | nil => rfl
  | cons b x ih =>
    rw [isValid, decode_cons_ascii (decide_eq_true_eq.mp (h b List.mem_cons_self)),
      Option.isSome_map]
    exact ih fun c hc => h c (List.mem_cons_of_mem b hc)

end Utf8
