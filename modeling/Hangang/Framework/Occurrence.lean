import Mathlib.Data.List.Induction
import Mathlib.Data.List.Infix

/-! # Occurrences of a Pattern

    Where a pattern occurs in a list that is read from the left, one element at a
    time.

    * **First occurrence**: the shortest part of a list that ends in the pattern.
    * **All occurrences**: the search that continues after each match.
    * **Replacement**: of each match of that search, for any pattern that is not empty. -/

namespace Occurrence

variable {α : Type}

/-! ## The first occurrence -/

theorem exists_first {d s : List α} (hd : d ≠ []) (h : d <:+: s) :
    ∃ t b rest, s = t ++ b :: rest ∧ ¬ d <:+: t ∧ d <:+ t ++ [b] := by
  induction s using List.reverseRecOn with
  | nil => exact absurd (List.infix_nil.mp h) hd
  | append_singleton s x ih =>
    by_cases hs : d <:+: s
    · obtain ⟨t, b, rest, rfl, ht, hb⟩ := ih hs
      exact ⟨t, b, rest ++ [x], by simp, ht, hb⟩
    · rcases List.infix_concat_iff.mp h with hsuffix | hwithin
      · exact ⟨s, x, [], rfl, hs, hsuffix⟩
      · exact absurd hwithin hs

theorem exists_first_split {d s : List α} (hd : d ≠ []) (h : d <:+: s) :
    ∃ t rest, s = t ++ d ++ rest ∧ ¬ d <:+: t ++ d.dropLast := by
  obtain ⟨t, b, rest, rfl, ht, u, hu⟩ := exists_first hd h
  have hdrop : t = u ++ d.dropLast := by
    have := congrArg List.dropLast hu
    rwa [List.dropLast_append_of_ne_nil hd, List.dropLast_concat, eq_comm] at this
  refine ⟨u, rest, ?_, ?_⟩
  · rw [hu, List.append_assoc, List.singleton_append]
  · rwa [← hdrop]

/-! ## All occurrences -/

/-- The places of the matches, counted from `index`, when the search continues after
    each match; `skip` elements of a match are still to be passed over. -/
def findFrom [DecidableEq α] (d : List α) (index skip : Nat) : List α → List Nat
  | [] => []
  | b :: rest =>
    match skip with
    | skip + 1 => findFrom d (index + 1) skip rest
    | 0 =>
      if d <+: b :: rest then index :: findFrom d (index + 1) (d.length - 1) rest
      else findFrom d (index + 1) 0 rest

/-! ## The first match -/

/-- The place of the first match, as a searcher for one pattern returns it. -/
def find [DecidableEq α] (d : List α) : List α → Option Nat
  | [] => if d = [] then some 0 else none
  | b :: rest => if d <+: b :: rest then some 0 else (find d rest).map (· + 1)

theorem find_le [DecidableEq α] {d s : List α} {i : Nat} (h : find d s = some i) :
    i + d.length ≤ s.length := by
  induction s generalizing i with
  | nil =>
    obtain ⟨rfl, h⟩ := Option.ite_none_right_eq_some.mp h
    obtain rfl := Option.some.inj h
    exact Nat.le_refl 0
  | cons b rest ih =>
    rw [find] at h
    split at h
    · next hmatch =>
      obtain rfl := Option.some.inj h
      rw [Nat.zero_add]
      exact hmatch.length_le
    · obtain ⟨j, hj, rfl⟩ := Option.map_eq_some_iff.mp h
      have := ih hj
      rw [List.length_cons]
      omega

theorem find_of_absent [DecidableEq α] {d s : List α} (h : ¬ d <:+: s) : find d s = none := by
  induction s with
  | nil =>
    rw [find, if_neg]
    rintro rfl
    exact h (List.infix_refl [])
  | cons b rest ih =>
    rw [find, if_neg fun hmatch => h hmatch.isInfix,
      ih fun hrest => h (hrest.trans (List.suffix_cons b rest).isInfix)]
    rfl

theorem find_of_first [DecidableEq α] {d t : List α} (hd : d ≠ [])
    (h : ¬ d <:+: t ++ d.dropLast) (rest : List α) : find d (t ++ d ++ rest) = some t.length := by
  induction t with
  | nil =>
    obtain ⟨b, d', rfl⟩ := List.exists_cons_of_ne_nil hd
    exact if_pos (List.prefix_append _ rest)
  | cons b t ih =>
    have hlater : ¬ d <:+: t ++ d.dropLast := fun hoccurs =>
      h (hoccurs.trans (List.suffix_cons b _).isInfix)
    have hmatch : ¬ d <+: b :: (t ++ d ++ rest) := by
      intro hprefix
      -- a match here would end within what is before the last element of the first one
      have hbefore : b :: t ++ d.dropLast <+: b :: (t ++ d ++ rest) := by
        have hdrop : b :: t ++ d.dropLast <+: b :: t ++ d :=
          (List.prefix_append_right_inj (b :: t)).mpr d.dropLast_prefix
        exact hdrop.trans (List.prefix_append (b :: t ++ d) rest)
      have hlength : d.length ≤ (b :: t ++ d.dropLast).length := by
        have := List.length_pos_iff.mpr hd
        simp only [List.length_append, List.length_cons, List.length_dropLast]
        omega
      exact h (List.prefix_of_prefix_length_le hprefix hbefore hlength).isInfix
    rw [List.cons_append, List.cons_append, find, if_neg hmatch, ih hlater]
    rfl

/-! ## Replacement -/

/-- `out` is `s` with the `n` matches that a reader finds who takes the first one and goes on
    behind it, each replaced by `new`. -/
inductive Replaced (d new : List α) : Nat → List α → List α → Prop
  | last {s : List α} (h : ¬ d <:+: s) : Replaced d new 0 s s
  | next {n : Nat} {t s out : List α} (h : ¬ d <:+: t ++ d.dropLast)
      (hrest : Replaced d new n s out) : Replaced d new (n + 1) (t ++ d ++ s) (t ++ new ++ out)

variable {d new : List α}

theorem exists_replaced (hd : d ≠ []) (new s : List α) : ∃ n out, Replaced d new n s out := by
  induction hlength : s.length using Nat.strong_induction_on generalizing s with
  | _ length ih =>
    by_cases hs : d <:+: s
    · obtain ⟨t, rest, rfl, hfirst⟩ := exists_first_split hd hs
      have hshorter : rest.length < length := by
        have := List.length_pos_iff.mpr hd
        simp only [List.length_append] at hlength
        omega
      obtain ⟨n, out, hrest⟩ := ih rest.length hshorter rest rfl
      exact ⟨n + 1, _, .next hfirst hrest⟩
    · exact ⟨0, s, .last hs⟩

/-- Each replacement takes the pattern away and puts `new` in its place. -/
theorem Replaced.length {n : Nat} {s out : List α} (h : Replaced d new n s out) :
    out.length + n * d.length = s.length + n * new.length := by
  induction h with
  | last => simp
  | next _ _ ih =>
    simp only [List.length_append, Nat.succ_mul]
    omega

theorem Replaced.removed_le {n : Nat} {s out : List α} (h : Replaced d new n s out) :
    n * d.length ≤ s.length := by
  induction h with
  | last => simp
  | next _ _ ih =>
    simp only [List.length_append, Nat.succ_mul]
    omega

/-- The text before the first match. -/
theorem first_unique (hd : d ≠ []) {t t' s s' : List α} (h : ¬ d <:+: t ++ d.dropLast)
    (h' : ¬ d <:+: t' ++ d.dropLast) (heq : t ++ d ++ s = t' ++ d ++ s') : t = t' ∧ s = s' := by
  classical
  have hlength : t.length = t'.length := by
    have hfind := find_of_first hd h s
    rw [heq, find_of_first hd h' s'] at hfind
    exact (Option.some.inj hfind).symm
  rw [List.append_assoc, List.append_assoc] at heq
  obtain ⟨rfl, hrest⟩ := List.append_inj heq hlength
  exact ⟨rfl, List.append_cancel_left hrest⟩

/-- The result does not depend on a choice. -/
theorem Replaced.unique (hd : d ≠ []) {n n' : Nat} {s out out' : List α}
    (h : Replaced d new n s out) (h' : Replaced d new n' s out') : n' = n ∧ out' = out := by
  induction h generalizing n' out' with
  | last hlast =>
    cases h' with
    | last => exact ⟨rfl, rfl⟩
    | next => exact absurd ⟨_, _, rfl⟩ hlast
  | @next n t s out hfirst hrest ih =>
    generalize hs : t ++ d ++ s = s₀ at h'
    cases h' with
    | last hlast => exact absurd ⟨t, s, hs⟩ hlast
    | next hfirst' hrest' =>
      obtain ⟨rfl, rfl⟩ := first_unique hd hfirst hfirst' hs
      obtain ⟨rfl, rfl⟩ := ih hrest'
      exact ⟨rfl, rfl⟩

end Occurrence
