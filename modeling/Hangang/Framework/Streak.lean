import Mathlib.Data.List.Basic
import Mathlib.Data.List.Induction
import Mathlib.Data.List.TakeWhile

/-! # Streaks

    A streak is a run of neighbours in a list that all have a property. Whoever
    counts neighbours and starts again at each exception knows the length of the
    last one, and that is enough to notice when a streak gets long enough. -/

namespace Streak

variable {α : Type} {p : α → Bool} {n : Nat} {l : List α} {a : α}

/-- The number of elements with `p` at the end of the list. -/
def trailing (p : α → Bool) (l : List α) : Nat := (l.reverse.takeWhile p).length

/-- Somewhere there are `n` neighbours with `p`, and at least one. -/
def Occurs (p : α → Bool) (n : Nat) (l : List α) : Prop :=
  ∃ before run after, l = before ++ run ++ after ∧ run ≠ [] ∧ n ≤ run.length ∧
    ∀ a ∈ run, p a = true

theorem trailing_snoc (ha : p a = true) : trailing p (l ++ [a]) = trailing p l + 1 := by
  unfold trailing
  rw [List.reverse_append, List.reverse_singleton, List.singleton_append,
    List.takeWhile_cons_of_pos ha, List.length_cons]

theorem trailing_snoc_not (ha : p a = false) : trailing p (l ++ [a]) = 0 := by
  unfold trailing
  rw [List.reverse_append, List.reverse_singleton, List.singleton_append,
    List.takeWhile_cons_of_neg (by simp [ha]), List.length_nil]

/-- A streak at the end is part of the last one. -/
theorem length_le_trailing (before : List α) {run : List α} (hrun : ∀ a ∈ run, p a = true) :
    run.length ≤ trailing p (before ++ run) := by
  unfold trailing
  have hreverse : ∀ a ∈ run.reverse, p a = true := fun a ha => hrun a (List.mem_reverse.mp ha)
  rw [List.reverse_append, List.takeWhile_append_of_pos hreverse, List.length_append,
    List.length_reverse]
  exact Nat.le_add_right _ _

/-- The last streak is one. -/
theorem exists_trailing (p : α → Bool) (l : List α) :
    ∃ before run, l = before ++ run ∧ run.length = trailing p l ∧ ∀ a ∈ run, p a = true := by
  refine ⟨(l.reverse.dropWhile p).reverse, (l.reverse.takeWhile p).reverse, ?_, ?_, ?_⟩
  · rw [← List.reverse_append, List.takeWhile_append_dropWhile, List.reverse_reverse]
  · exact List.length_reverse
  · intro a ha
    exact List.mem_takeWhile_imp (List.mem_reverse.mp ha)

theorem not_occurs_nil : ¬ Occurs p n ([] : List α) := by
  rintro ⟨before, run, after, hnil, hne, -⟩
  have hempty : before ++ run = [] := (List.append_eq_nil_iff.mp hnil.symm).1
  exact hne (List.append_eq_nil_iff.mp hempty).2

theorem Occurs.snoc (h : Occurs p n l) (a : α) : Occurs p n (l ++ [a]) := by
  obtain ⟨before, run, after, rfl, hne, hlength, hrun⟩ := h
  exact ⟨before, run, after ++ [a], by simp, hne, hlength, hrun⟩

/-- A streak that is there after one more element was there before, or ends in it. -/
theorem occurs_of_snoc (h : Occurs p n (l ++ [a])) :
    Occurs p n l ∨ p a = true ∧ n ≤ trailing p l + 1 := by
  obtain ⟨before, run, after, hsplit, hne, hlength, hrun⟩ := h
  rcases List.eq_nil_or_concat after with rfl | ⟨after, last, rfl⟩
  · -- The streak ends the list: without its last element it ends `l`.
    obtain ⟨run, last, rfl⟩ := (List.eq_nil_or_concat run).resolve_left hne
    rw [List.append_nil, List.concat_eq_append, ← List.append_assoc] at hsplit
    obtain ⟨rfl, hlast⟩ := List.append_inj' hsplit rfl
    obtain rfl : a = last := List.singleton_inj.mp hlast
    rw [List.concat_eq_append] at hlength hrun
    have hlast : p a = true := hrun a (by simp)
    have hle := length_le_trailing before fun x hx =>
      hrun x (List.mem_append_left [a] hx)
    rw [List.length_append, List.length_singleton] at hlength
    exact .inr ⟨hlast, by omega⟩
  · rw [List.concat_eq_append, ← List.append_assoc] at hsplit
    obtain ⟨rfl, -⟩ := List.append_inj' hsplit rfl
    exact .inl ⟨before, run, after, rfl, hne, hlength, hrun⟩

theorem occurs_snoc (ha : p a = true) :
    Occurs p n (l ++ [a]) ↔ Occurs p n l ∨ n ≤ trailing p l + 1 := by
  constructor
  · intro h
    exact (occurs_of_snoc h).imp_right And.right
  · rintro (h | hle)
    · exact h.snoc a
    · obtain ⟨before, run, rfl, hlength, hrun⟩ := exists_trailing p l
      refine ⟨before, run ++ [a], [], by simp, by simp, ?_, ?_⟩
      · rw [List.length_append, List.length_singleton]
        omega
      · intro x hx
        rcases List.mem_append.mp hx with hx | hx
        · exact hrun x hx
        · rw [List.mem_singleton.mp hx]
          exact ha

theorem occurs_snoc_not (ha : p a = false) : Occurs p n (l ++ [a]) ↔ Occurs p n l := by
  constructor
  · intro h
    refine (occurs_of_snoc h).resolve_right ?_
    rintro ⟨hpos, -⟩
    rw [ha] at hpos
    cases hpos
  · intro h
    exact h.snoc a

/-- Without a streak of length `n`, the last streak is shorter. -/
theorem trailing_lt_of_not_occurs (h : ¬ Occurs p n l) :
    trailing p l = 0 ∨ trailing p l < n := by
  obtain ⟨before, run, rfl, hlength, hrun⟩ := exists_trailing p l
  by_contra hlong
  obtain ⟨hpos, hle⟩ := not_or.mp hlong
  refine h ⟨before, run, [], by simp, ?_, by omega, hrun⟩
  rintro rfl
  exact hpos hlength.symm

/-- A streak has a part of every smaller length. -/
theorem Occurs.exact (h : Occurs p n l) :
    ∃ before run after, l = before ++ run ++ after ∧ run.length = n ∧ ∀ a ∈ run, p a = true := by
  obtain ⟨before, run, after, rfl, -, hlength, hrun⟩ := h
  refine ⟨before, run.take n, run.drop n ++ after, ?_, List.length_take_of_le hlength, ?_⟩
  · rw [List.append_assoc, List.append_assoc, ← List.append_assoc (run.take n),
      List.take_append_drop]
  · intro a ha
    exact hrun a (List.mem_of_mem_take ha)

end Streak
