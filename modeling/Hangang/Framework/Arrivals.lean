import Hangang.Framework.Bytes

/-! # Bytes That Arrive in Pieces

    A connection as the pieces in which its bytes become readable. An empty piece
    is a poll that finds nothing; the end of the list is the end of the stream,
    orderly or not. `readExact` fills a buffer across the pieces; its rules speak
    about the stream only, so what is proved with them holds for every way the
    bytes arrive. -/

open Bytes

abbrev Arrivals : Type := List Bytes

namespace Arrivals

/-- `AsyncReadExt::read_exact` with a buffer of `n` bytes; `none` is a stream that
    ends before the buffer is full. -/
def readExact (n : Nat) : Arrivals → Option (Bytes × Arrivals)
  | [] => if n = 0 then some ([], []) else none
  | piece :: rest =>
    if n < piece.length then some (piece.take n, piece.drop n :: rest)
    else (readExact (n - piece.length) rest).map fun (bytes, rest) => (piece ++ bytes, rest)

theorem readExact_eq_some {n : Nat} {r r' : Arrivals} {x : Bytes}
    (h : readExact n r = some (x, r')) : r.flatten = x ++ r'.flatten ∧ x.length = n := by
  induction r generalizing n x with
  | nil =>
    obtain ⟨hn, hx⟩ := Option.ite_none_right_eq_some.mp h
    cases hx
    exact ⟨rfl, hn.symm⟩
  | cons piece rest ih =>
    rw [readExact] at h
    split at h
    · next hlt =>
      cases h
      rw [List.flatten_cons, List.flatten_cons, ← List.append_assoc, List.take_append_drop]
      exact ⟨rfl, List.length_take_of_le (Nat.le_of_lt hlt)⟩
    · next hle =>
      obtain ⟨⟨y, r₁⟩, hy, hnext⟩ := Option.map_eq_some_iff.mp h
      cases hnext
      obtain ⟨hflat, hlength⟩ := ih hy
      rw [List.flatten_cons, hflat, List.append_assoc]
      refine ⟨rfl, ?_⟩
      rw [List.length_append, hlength]
      omega

/-- The bytes that are there are read. -/
theorem exists_readExact {r : Arrivals} {x y : Bytes} (h : r.flatten = x ++ y) :
    ∃ r', readExact x.length r = some (x, r') ∧ r'.flatten = y := by
  induction r generalizing x with
  | nil =>
    obtain ⟨rfl, rfl⟩ := List.append_eq_nil_iff.mp h.symm
    exact ⟨[], rfl, rfl⟩
  | cons piece rest ih =>
    rw [List.flatten_cons] at h
    by_cases hlt : x.length < piece.length
    · obtain ⟨z, rfl, hz⟩ : ∃ z, piece = x ++ z ∧ y = z ++ rest.flatten := by
        rcases List.append_eq_append_iff.mp h with ⟨z, hz, -⟩ | ⟨z, hpiece, hy⟩
        · rw [hz, List.length_append] at hlt
          omega
        · exact ⟨z, hpiece, hy⟩
      refine ⟨z :: rest, ?_, hz.symm⟩
      rw [readExact, if_pos hlt, List.take_left, List.drop_left]
    · obtain ⟨z, rfl, hz⟩ : ∃ z, x = piece ++ z ∧ rest.flatten = z ++ y := by
        rcases List.append_eq_append_iff.mp h with ⟨z, hx, hrest⟩ | ⟨z, hpiece, hy⟩
        · exact ⟨z, hx, hrest⟩
        · have hnil : z = [] := by
            have hlength := congrArg List.length hpiece
            rw [List.length_append] at hlength
            exact List.length_eq_zero_iff.mp (by omega)
          subst hnil
          exact ⟨[], by simpa using hpiece.symm, by simpa using hy.symm⟩
      obtain ⟨r', hr', hflat⟩ := ih hz
      refine ⟨r', ?_, hflat⟩
      rw [readExact, if_neg hlt, List.length_append, Nat.add_sub_cancel_left, hr']
      rfl

end Arrivals
