import Mathlib.Data.List.Induction
import Mathlib.Data.List.Perm.Basic

/-! # Removal by Swapping

    A vector gives up an element in constant time by moving its last one into the gap, which
    changes the order of the others. What is left is the same as a multiset, so a loop that
    strikes out one element after the other decides whether two lists are permutations of
    each other. -/

namespace List

variable {α : Type u}

/-- The last element takes the place of element `i`. -/
def swapRemove (l : List α) (i : Nat) : List α :=
  match l.getLast? with
  | none => l
  | some last => (l.set i last).dropLast

theorem cons_swapRemove_perm {l : List α} {i : Nat} {x : α} (h : l[i]? = some x) :
    (x :: l.swapRemove i).Perm l := by
  obtain ⟨hlt, rfl⟩ := List.getElem?_eq_some_iff.mp h
  induction l using List.reverseRecOn with
  | nil => exact absurd hlt (Nat.not_lt_zero _)
  | append_singleton init last _ =>
    unfold swapRemove
    rw [List.getLast?_concat]
    dsimp only
    by_cases hi : i < init.length
    · rw [List.set_append_left _ _ hi, List.dropLast_concat, List.getElem_append_left hi]
      calc init[i] :: init.set i last
          _ ~ init[i] :: last :: init.eraseIdx i := (List.set_perm_cons_eraseIdx hi last).cons _
          _ ~ last :: init[i] :: init.eraseIdx i := .swap _ _ _
          _ ~ last :: init := (List.getElem_cons_eraseIdx_perm hi).cons _
          _ ~ init ++ [last] := (List.perm_append_singleton last init).symm
    · obtain rfl : i = init.length := by
        rw [List.length_append, List.length_singleton] at hlt
        omega
      have hset : (init ++ [last]).set init.length last = init ++ [last] := by
        rw [List.set_append_right _ _ (Nat.le_refl _), Nat.sub_self]
        rfl
      rw [hset, List.dropLast_concat, List.getElem_concat_length rfl]
      exact (List.perm_append_singleton last init).symm

section

variable [DecidableEq α]

/-- Strikes out the elements of a list one by one, where each has to be there. -/
def consume (remaining : List α) : List α → Bool
  | [] => remaining.isEmpty
  | x :: xs =>
    match remaining.findIdx? (· = x) with
    | none => false
    | some i => consume (remaining.swapRemove i) xs

/-- **Rule**: the loop decides equality of multisets. -/
theorem consume_eq_true_iff {xs remaining : List α} :
    remaining.consume xs = true ↔ xs.Perm remaining := by
  induction xs generalizing remaining with
  | nil =>
    rw [consume, List.isEmpty_iff, List.nil_perm]
  | cons x xs ih =>
    rw [consume]
    split
    · next hnone =>
      have hmem : x ∉ remaining := by
        intro hmem
        have hne := List.findIdx?_eq_none_iff.mp hnone x hmem
        simp at hne
      constructor
      · intro h
        cases h
      · intro h
        exact absurd (h.subset List.mem_cons_self) hmem
    · next i hsome =>
      obtain ⟨hlt, heq, -⟩ := List.findIdx?_eq_some_iff_getElem.mp hsome
      have hget : remaining[i]? = some x :=
        List.getElem?_eq_some_iff.mpr ⟨hlt, of_decide_eq_true heq⟩
      rw [ih]
      constructor
      · intro h
        exact (h.cons x).trans (cons_swapRemove_perm hget)
      · intro h
        exact (h.trans (cons_swapRemove_perm hget).symm).cons_inv

end

end List
