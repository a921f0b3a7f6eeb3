import Hangang.Framework.Bytes
import Hangang.Framework.Except
import Hangang.Framework.Occurrence

/-! # Bounded Replacement

    `replace_bounded` goes over its input twice. The first pass counts the matches and
    computes the size of the output, with checked arithmetic, so that nothing is allocated
    for an output beyond the limit; the second one writes the output. Both search with the
    same `memmem` finder, which returns the first match in a slice. No slice and no vector
    has more than `isize::MAX` bytes. -/

open Occurrence

namespace Transform

inductive ReplaceError where
  /-- An error with its text. -/
  | message (text : String)
  /-- `LimitExceeded`, which the caller reports as such. -/
  | limitExceeded
  /-- The panic of `Vec::with_capacity`. -/
  | capacityOverflow
  deriving DecidableEq, Repr

/-- A checked operation of `usize`, and the context of its failure. -/
def checked (value : Nat) (context : String) : Except ReplaceError Nat :=
  if value < 2 ^ 64 then .ok value else .error (.message context)

theorem checked_of_lt {value : Nat} {context : String} (h : value < 2 ^ 64) :
    checked value context = .ok value :=
  if_pos h

/-- A match does not leave the cursor where it was. -/
theorem cursor_decreases {input source : Bytes} (hsource : source ≠ []) {cursor offset : Nat}
    (hfind : find source (input.drop cursor) = some offset) :
    input.length - (cursor + offset + source.length) < input.length - cursor := by
  have hle := find_le hfind
  have hpos := List.length_pos_iff.mpr hsource
  rw [List.length_drop] at hle
  omega

/-- The loop of the counting pass. -/
def countMatches (input source : Bytes) (hsource : source ≠ []) (cursor count : Nat) :
    Except ReplaceError Nat :=
  match _hfind : find source (input.drop cursor) with
  | none => .ok count
  | some offset => do
    let count ← checked (count + 1) "replacement count overflow"
    let _ ← checked (cursor + offset) "replacement position overflow"
    let _ ← checked (cursor + offset + source.length) "replacement position overflow"
    countMatches input source hsource (cursor + offset + source.length) count
termination_by input.length - cursor
decreasing_by exact cursor_decreases hsource _hfind

/-- The size that the counting pass computes. -/
def replacedSize (input source replacement : Bytes) (hsource : source ≠ []) :
    Except ReplaceError Nat := do
  let count ← countMatches input source hsource 0 0
  let removed ← checked (count * source.length) "replacement size overflow"
  let added ← checked (count * replacement.length) "replacement size overflow"
  if removed ≤ input.length then
    checked (input.length - removed + added) "replacement size overflow"
  else .error (.message "replacement size overflow")

/-- The loop of the copying pass. -/
def copyReplaced (input source replacement : Bytes) (hsource : source ≠ []) (start : Nat)
    (output : Bytes) : Bytes :=
  match _hfind : find source (input.drop start) with
  | none => output ++ input.drop start
  | some offset =>
    copyReplaced input source replacement hsource (start + offset + source.length)
      (output ++ (input.drop start).take offset ++ replacement)
termination_by input.length - start
decreasing_by exact cursor_decreases hsource _hfind

def replaceBounded (input source replacement : Bytes) (limit : Nat) : Except ReplaceError Bytes :=
  if hsource : source = [] then .error (.message "replace source must not be empty")
  else do
    let size ← replacedSize input source replacement hsource
    if limit < size then .error .limitExceeded
    else if 2 ^ 63 ≤ size then .error .capacityOverflow
    else .ok (copyReplaced input source replacement hsource 0 [])

/-! ## The passes -/

section passes

variable {input source replacement : Bytes} (hsource : source ≠ [])

/-- What is left of the input behind a match. -/
theorem drop_behind {cursor : Nat} {before rest : Bytes}
    (h : input.drop cursor = before ++ source ++ rest) :
    input.drop (cursor + before.length + source.length) = rest := by
  have hlength : (before ++ source).length = before.length + source.length := List.length_append
  rw [Nat.add_assoc, ← List.drop_drop, h, ← hlength, List.drop_left]

/-- The counting pass counts the matches; nothing overflows in a slice. -/
theorem countMatches_eq {n cursor count : Nat} {rest output : Bytes}
    (hrest : input.drop cursor = rest) (h : Replaced source replacement n rest output)
    (hinput : input.length < 2 ^ 64) (hcount : count + n < 2 ^ 64) :
    countMatches input source hsource cursor count = .ok (count + n) := by
  induction h generalizing cursor count with
  | last hlast =>
    unfold countMatches
    rw [← hrest] at hlast
    split
    · rfl
    · next hfind =>
      rw [find_of_absent hlast] at hfind
      cases hfind
  | @next n before rest output hfirst _ ih =>
    have hfound : find source (input.drop cursor) = some before.length := by
      rw [hrest]
      exact find_of_first hsource hfirst rest
    have hend : cursor + before.length + source.length ≤ input.length := by
      have hle := find_le hfound
      have hpos := List.length_pos_iff.mpr hsource
      rw [List.length_drop] at hle
      omega
    unfold countMatches
    split
    · next hnone =>
      rw [hfound] at hnone
      cases hnone
    · next offset hfind =>
      obtain rfl : before.length = offset := Option.some.inj (hfound.symm.trans hfind)
      rw [checked_of_lt (by omega), checked_of_lt (by omega), checked_of_lt (by omega)]
      have hlater := ih (drop_behind hrest) (show count + 1 + n < 2 ^ 64 by omega)
      rw [show count + (n + 1) = count + 1 + n by omega]
      exact hlater

/-- The copying pass replaces the matches. -/
theorem copyReplaced_eq {n start : Nat} {rest output written : Bytes}
    (hrest : input.drop start = rest) (h : Replaced source replacement n rest output) :
    copyReplaced input source replacement hsource start written = written ++ output := by
  induction h generalizing start written with
  | last hlast =>
    unfold copyReplaced
    split
    · rw [hrest]
    · next hfind =>
      rw [hrest, find_of_absent hlast] at hfind
      cases hfind
  | @next n before rest output hfirst _ ih =>
    have hfound : find source (input.drop start) = some before.length := by
      rw [hrest]
      exact find_of_first hsource hfirst rest
    unfold copyReplaced
    split
    · next hnone =>
      rw [hfound] at hnone
      cases hnone
    · next offset hfind =>
      obtain rfl : before.length = offset := Option.some.inj (hfound.symm.trans hfind)
      have htake : (input.drop start).take before.length = before := by
        rw [hrest, List.append_assoc, List.take_left]
      rw [ih (drop_behind hrest), htake]
      simp only [List.append_assoc]

/-- The counting pass computes the size of the output. -/
theorem replacedSize_eq {n : Nat} {output : Bytes} (hinput : input.length < 2 ^ 63)
    (houtput : output.length < 2 ^ 63) (h : Replaced source replacement n input output) :
    replacedSize input source replacement hsource = .ok output.length := by
  have hlength := h.length
  have hremoved : n * source.length ≤ input.length := h.removed_le
  have hn : n ≤ input.length := by
    refine Nat.le_trans ?_ hremoved
    exact Nat.le_mul_of_pos_right n (List.length_pos_iff.mpr hsource)
  have hcount := @countMatches_eq input source replacement hsource n 0 0 input output rfl h
    (by omega) (by omega)
  unfold replacedSize
  rw [hcount, Except.ok_bind, Nat.zero_add, checked_of_lt (by omega), Except.ok_bind,
    checked_of_lt (by omega), Except.ok_bind, if_pos hremoved, checked_of_lt (by omega)]
  exact congrArg Except.ok (by omega)

end passes

/-! ## The result -/

/-- **Bounded replacement.** There is one leftmost replacement of all matches. It is returned
    if it is within the limit, and the call fails with the limit error if it is not. The size
    of the counting pass is the length that the copying pass writes. -/
theorem replace_bounded_exact (input source replacement : Bytes) (limit : Nat)
    (hsource : source ≠ []) (hinput : input.length < 2 ^ 63) :
    ∃ n output, Replaced source replacement n input output ∧
      (∀ n' output', Replaced source replacement n' input output' → n' = n ∧ output' = output) ∧
      (output.length < 2 ^ 63 →
        replaceBounded input source replacement limit =
          (if output.length ≤ limit then .ok output else .error .limitExceeded) ∧
        replacedSize input source replacement hsource = .ok output.length ∧
        (copyReplaced input source replacement hsource 0 []).length = output.length) := by
  obtain ⟨n, output, h⟩ := exists_replaced hsource replacement input
  refine ⟨n, output, h, fun _ _ h' => h.unique hsource h', fun houtput => ?_⟩
  have hsize := replacedSize_eq hsource hinput houtput h
  have hcopy : copyReplaced input source replacement hsource 0 [] = output :=
    copyReplaced_eq hsource rfl h
  refine ⟨?_, hsize, congrArg List.length hcopy⟩
  unfold replaceBounded
  rw [dif_neg hsource, hsize, Except.ok_bind, if_neg (Nat.not_le.mpr houtput), hcopy]
  by_cases hlimit : output.length ≤ limit
  · rw [if_pos hlimit, if_neg (Nat.not_lt.mpr hlimit)]
  · rw [if_neg hlimit, if_pos (Nat.lt_of_not_le hlimit)]

/-- The matches of `aa` in `aaaaa` do not overlap. -/
theorem replace_bounded_exact_overlapping :
    replaceBounded (Bytes.ascii "aaaaa") (Bytes.ascii "aa") (Bytes.ascii "b") 3 =
      .ok (Bytes.ascii "bba") := by
  obtain ⟨n, output, -, hunique, heq⟩ := replace_bounded_exact (Bytes.ascii "aaaaa")
    (Bytes.ascii "aa") (Bytes.ascii "b") 3 (by decide) (by decide)
  have hlast : Replaced (Bytes.ascii "aa") (Bytes.ascii "b") 0 [97] [97] := .last (by decide)
  have hnext : Replaced (Bytes.ascii "aa") (Bytes.ascii "b") 2 (Bytes.ascii "aaaaa")
      (Bytes.ascii "bba") := .next (t := []) (by decide) (.next (t := []) (by decide) hlast)
  obtain ⟨rfl, rfl⟩ := hunique 2 (Bytes.ascii "bba") hnext
  exact (heq (by decide)).1

end Transform
