import Hangang.Framework.Framing
import Hangang.Framework.IpAddr
import Mathlib.Data.List.Induction

/-! # Texts of Internet Addresses

    The parts of such a text: decimal numbers, and what stands between two dots. -/

open Bytes

namespace IpAddr

/-! ## Numbers -/

def readDecimal (x : Bytes) : Nat := x.foldl (fun n b => n * 10 + (b.toNat - 48)) 0

/-! ## Parts -/

/-- The parts with a separator between each two. -/
def joinWith (b : UInt8) : List Bytes → Bytes
  | [] => []
  | part :: parts => part ++ parts.flatMap (b :: ·)

theorem joinWith_cons (b : UInt8) (part : Bytes) (parts : List Bytes) :
    joinWith b (part :: parts) = part ++ parts.flatMap (b :: ·) := rfl

theorem splitOn_joinWith {b : UInt8} {part : Bytes} {parts : List Bytes}
    (h : ∀ p ∈ part :: parts, b ∉ p) : splitOn b (joinWith b (part :: parts)) = part :: parts := by
  induction parts generalizing part with
  | nil =>
    rw [joinWith_cons, List.flatMap_nil, List.append_nil]
    exact splitOn_eq_singleton.mpr ⟨rfl, h part List.mem_cons_self⟩
  | cons next parts ih =>
    rw [joinWith_cons, List.flatMap_cons, List.cons_append, splitOn_append_cons, ← joinWith_cons,
      ih fun p hp => h p (List.mem_cons_of_mem part hp),
      splitOn_eq_singleton.mpr ⟨rfl, h part List.mem_cons_self⟩]
    rfl

theorem joinWith_splitOn (b : UInt8) (x : Bytes) : joinWith b (splitOn b x) = x := by
  induction x with
  | nil => rfl
  | cons c x ih =>
    by_cases hc : c = b
    · subst hc
      obtain ⟨part, parts, hx⟩ := List.exists_cons_of_ne_nil (splitOn_ne_nil c x)
      rw [hx, joinWith_cons] at ih
      rw [splitOn_cons_self, hx, joinWith_cons, List.flatMap_cons, List.nil_append,
        List.cons_append, ih]
    · obtain ⟨part, parts, hx, hcons⟩ := splitOn_cons_ne hc x
      rw [hx, joinWith_cons] at ih
      rw [hcons, joinWith_cons, List.cons_append, ih]

end IpAddr
