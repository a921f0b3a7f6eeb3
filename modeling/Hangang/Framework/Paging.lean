import Mathlib.Data.List.Basic
import Mathlib.Order.Defs.PartialOrder

/-! # Paging by a Cursor

    Rows with ascending keys are read page by page: each page starts behind the key of the
    last row of the page before. The rows behind the cursor are what is left to read. -/

namespace Paging

variable {α : Type u} (key : α → Nat)

/-- The rows behind a cursor. -/
def behind (after : Nat) (rows : List α) : List α := rows.filter fun row => after < key row

/-- The cursor behind a page. -/
def cursor (after : Nat) (page : List α) : Nat := (page.getLast?.map key).getD after

variable {key} {after : Nat} {rows : List α}

theorem behind_behind {later : Nat} (h : after ≤ later) (rows : List α) :
    behind key later (behind key after rows) = behind key later rows := by
  unfold behind
  rw [List.filter_filter]
  apply List.filter_congr
  intro row _
  rw [Bool.and_eq_left_iff_imp]
  intro hlater
  exact decide_eq_true (Nat.lt_of_le_of_lt h (of_decide_eq_true hlater))

theorem lt_key_of_mem_behind {row : α} (h : row ∈ behind key after rows) : after < key row :=
  of_decide_eq_true (List.mem_filter.mp h).2

/-- Sorting leaves rows with ascending keys as they are. -/
theorem mergeSort_behind (h : rows.Pairwise fun a b => key a < key b) :
    ((behind key after rows).mergeSort fun a b => key a ≤ key b) = behind key after rows := by
  apply List.mergeSort_of_pairwise
  exact (h.filter _).imp fun hlt => decide_eq_true (Nat.le_of_lt hlt)

/-- The cursor behind a page is not before the one in front of it. -/
theorem le_cursor (page : List α) (h : ∀ row ∈ page, after < key row) :
    after ≤ cursor key after page := by
  unfold cursor
  cases hlast : page.getLast? with
  | none => exact Nat.le_refl _
  | some row => exact Nat.le_of_lt (h row (List.mem_of_getLast? hlast))

/-- A bound on the rows bounds the cursor. -/
theorem cursor_le {bound : Nat} {page : List α} (hafter : after ≤ bound)
    (h : ∀ row ∈ page, key row ≤ bound) : cursor key after page ≤ bound := by
  unfold cursor
  cases hlast : page.getLast? with
  | none => exact hafter
  | some row => exact h row (List.mem_of_getLast? hlast)

/-- No row of a page is behind its cursor. -/
theorem key_le_cursor {page : List α} (h : page.Pairwise fun a b => key a < key b) {row : α}
    (hrow : row ∈ page) : key row ≤ cursor key after page := by
  cases hlast : page.getLast? with
  | none => exact absurd hrow (List.getLast?_eq_none_iff.mp hlast ▸ List.not_mem_nil)
  | some last =>
    rw [cursor, hlast, Option.map_some, Option.getD_some]
    obtain ⟨front, rfl⟩ := List.getLast?_eq_some_iff.mp hlast
    rcases List.mem_append.mp hrow with hrow | hrow
    · exact Nat.le_of_lt ((List.pairwise_append.mp h).2.2 row hrow last List.mem_cons_self)
    · exact Nat.le_of_eq (congrArg key (List.mem_singleton.mp hrow))

/-- What comes behind a page is behind its cursor. -/
theorem cursor_lt_key {page rest : List α} (h : (page ++ rest).Pairwise fun a b => key a < key b)
    (hafter : ∀ row ∈ page ++ rest, after < key row) {row : α} (hrow : row ∈ rest) :
    cursor key after page < key row := by
  unfold cursor
  cases hlast : page.getLast? with
  | none => exact hafter row (List.mem_append_right _ hrow)
  | some last => exact (List.pairwise_append.mp h).2.2 last (List.mem_of_getLast? hlast) row hrow

/-- **Cursor rule**: behind a page of `n` rows stand the rows behind the cursor but the first
    `n`. -/
theorem behind_cursor (h : rows.Pairwise fun a b => key a < key b) (after n : Nat) :
    behind key (cursor key after ((behind key after rows).take n)) rows =
      (behind key after rows).drop n := by
  have hafter : ∀ row ∈ behind key after rows, after < key row := fun row =>
    lt_key_of_mem_behind
  have hsorted : (behind key after rows).Pairwise fun a b => key a < key b := h.filter _
  rw [← behind_behind (le_cursor _ fun row hrow => hafter row (List.mem_of_mem_take hrow))]
  generalize behind key after rows = left at hafter hsorted ⊢
  have hsplit := List.take_append_drop n left
  generalize left.take n = page at hsplit ⊢
  generalize left.drop n = rest at hsplit ⊢
  subst hsplit
  unfold behind
  rw [List.filter_append, List.filter_eq_nil_iff.mpr, List.filter_eq_self.mpr, List.nil_append]
  · intro row hrow
    exact decide_eq_true (cursor_lt_key hsorted hafter hrow)
  · intro row hrow hlt
    have hle : key row ≤ cursor key after page :=
      key_le_cursor (List.pairwise_append.mp hsorted).1 hrow
    exact absurd (of_decide_eq_true hlt) (Nat.not_lt_of_le hle)

end Paging
