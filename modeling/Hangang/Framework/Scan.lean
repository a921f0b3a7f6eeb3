import Mathlib.Data.List.MinMax
import Mathlib.Order.Interval.Finset.Nat
import Mathlib.Order.Lattice

/-! # Scans around a Ring

    Positions `0` to `n - 1` in the order in which a scan visits them that starts
    somewhere and goes around the end; a window of consecutive numbers, taken modulo
    its length; and what a scan finds that keeps the first minimum it sees. -/

namespace Scan

/-! ## Rotation -/

/-- The positions from `start` on, around the end. -/
def rotation (start n : Nat) : List Nat := (List.range n).map fun offset => (start + offset) % n

/-- A window of consecutive numbers has every residue once. -/
theorem window_perm (start n : Nat) : ((List.range' start n).map (· % n)).Perm (List.range n) := by
  have hwindow : (((List.range' start (start + n - start)).map (· % n) : List Nat) : Multiset Nat) =
      (List.range n : List Nat) := Nat.multiset_Ico_map_mod start n
  rw [Nat.add_sub_cancel_left] at hwindow
  exact Multiset.coe_eq_coe.mp hwindow

theorem rotation_eq (start n : Nat) : rotation start n = (List.range' start n).map (· % n) := by
  unfold rotation
  rw [List.range'_eq_map_range, List.map_map]
  rfl

theorem rotation_perm (start n : Nat) : (rotation start n).Perm (List.range n) := by
  rw [rotation_eq]
  exact window_perm start n

theorem mem_rotation {start n i : Nat} : i ∈ rotation start n ↔ i < n :=
  (rotation_perm start n).mem_iff.trans List.mem_range

/-- The scan begins at its start. -/
theorem rotation_cons {start n : Nat} (h : start < n) :
    ∃ rest, rotation start n = start :: rest := by
  cases n with
  | zero => exact absurd h (Nat.not_lt_zero _)
  | succ n =>
    unfold rotation
    rw [List.range_succ_eq_map, List.map_cons, Nat.add_zero, Nat.mod_eq_of_lt h]
    exact ⟨_, rfl⟩

/-! ## First minimum -/

/-- What `argmin` returns is smaller than everything before it. -/
theorem argmin_split {α β : Type} [LinearOrder β] {f : α → β} {l : List α} {m : α}
    (h : l.argmin f = some m) :
    ∃ before after, l = before ++ m :: after ∧ (∀ a ∈ before, f m < f a) ∧
      ∀ a ∈ after, f m ≤ f a := by
  induction l using List.reverseRecOn generalizing m with
  | nil => cases h
  | append_singleton l x ih =>
    rw [List.argmin_concat] at h
    cases hl : l.argmin f with
    | none =>
      obtain rfl := List.argmin_eq_none.mp hl
      obtain rfl : x = m := Option.some.inj h
      exact ⟨[], [], rfl, by simp, by simp⟩
    | some c =>
      rw [hl] at h
      obtain ⟨before, after, rfl, hbefore, hafter⟩ := ih hl
      by_cases hx : f x < f c
      · obtain rfl : x = m := by simpa [hx] using h
        refine ⟨before ++ c :: after, [], by simp, ?_, by simp⟩
        -- Everything is at least the old minimum, which the new one undercuts.
        intro a ha
        rcases List.mem_append.mp ha with ha | ha
        · exact hx.trans (hbefore a ha)
        · rcases List.mem_cons.mp ha with rfl | ha
          · exact hx
          · exact hx.trans_le (hafter a ha)
      · obtain rfl : c = m := by simpa [hx] using h
        refine ⟨before, after ++ [x], by simp, hbefore, ?_⟩
        intro a ha
        rcases List.mem_append.mp ha with ha | ha
        · exact hafter a ha
        · rw [List.mem_singleton.mp ha]
          exact not_lt.mp hx

/-- A scan over the elements with `p`, in the list it filters. -/
theorem argmin_filter_split {α β : Type} [LinearOrder β] {f : α → β} {p : α → Bool} {l : List α}
    {m : α} (h : (l.filter p).argmin f = some m) :
    p m = true ∧ ∃ before after, l = before ++ m :: after ∧
      (∀ a ∈ before, p a = true → f m < f a) ∧ ∀ a ∈ after, p a = true → f m ≤ f a := by
  obtain ⟨before, after, hsplit, hbefore, hafter⟩ := argmin_split h
  obtain ⟨l₁, rest, rfl, rfl, hrest⟩ := List.filter_eq_append_iff.mp hsplit
  obtain ⟨l₂, l₃, rfl, hskip, hm, rfl⟩ := List.filter_eq_cons_iff.mp hrest
  refine ⟨hm, l₁ ++ l₂, l₃, by simp, ?_, ?_⟩
  · intro a ha hp
    rcases List.mem_append.mp ha with ha | ha
    · exact hbefore a (List.mem_filter.mpr ⟨ha, hp⟩)
    · exact absurd hp (hskip a ha)
  · intro a ha hp
    exact hafter a (List.mem_filter.mpr ⟨ha, hp⟩)

end Scan
