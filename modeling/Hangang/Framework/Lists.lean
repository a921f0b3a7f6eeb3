import Mathlib.Data.List.Basic
import Mathlib.Data.List.Induction
import Mathlib.Data.List.Nodup

/-! # Loops over Lists, and Lists with Keys

    * **Enumeration rule** for a loop with an index: what turn `i` makes of the
      invariant of `i` is the invariant of `i + 1`.
    * **Keys**: a list whose elements have distinct keys has one element for a key. -/

namespace List

variable {α β κ : Type}

/-- **Enumeration rule**: the invariant of the length holds at the end. -/
theorem foldl_zipIdx_invariant {f : β → α × Nat → β} {xs : List α}
    (Inv : Nat → β → Prop) {b : β} (hstart : Inv 0 b)
    (hturn : ∀ i x b, xs[i]? = some x → Inv i b → Inv (i + 1) (f b (x, i))) :
    Inv xs.length (xs.zipIdx.foldl f b) := by
  induction xs using List.reverseRecOn with
  | nil => exact hstart
  | append_singleton xs x ih =>
    have hxs : Inv xs.length (xs.zipIdx.foldl f b) := by
      apply ih
      intro i y b hy
      have hlt : i < xs.length := (List.getElem?_eq_some_iff.mp hy).1
      exact hturn i y b ((List.getElem?_append_left hlt).trans hy)
    have hlast : (xs ++ [x])[xs.length]? = some x := List.getElem?_concat_length
    rw [List.zipIdx_append, List.foldl_append, List.length_append]
    simpa using hturn xs.length x _ hlast hxs

theorem nodup_map_concat {g : α → κ} {l : List α} {x : α} (h : (l.map g).Nodup)
    (hx : ∀ y ∈ l, g y ≠ g x) : ((l ++ [x]).map g).Nodup := by
  rw [List.map_append, List.nodup_append]
  refine ⟨h, List.nodup_singleton _, ?_⟩
  intro key hkey other hother
  obtain ⟨y, hy, rfl⟩ := List.mem_map.mp hkey
  rw [List.mem_singleton.mp hother]
  exact hx y hy

/-- The only element with its key. -/
theorem filter_key_eq [DecidableEq κ] {g : α → κ} {l : List α} {x : α}
    (h : (l.map g).Nodup) (hx : x ∈ l) : l.filter (fun y => g y = g x) = [x] := by
  induction l with
  | nil => exact absurd hx List.not_mem_nil
  | cons y l ih =>
    rw [List.map_cons, List.nodup_cons] at h
    rcases List.mem_cons.mp hx with rfl | hx
    · rw [List.filter_cons_of_pos (by simp), List.filter_eq_nil_iff.mpr]
      intro z hz hkey
      exact h.1 (List.mem_map.mpr ⟨z, hz, by simpa using hkey⟩)
    · rw [List.filter_cons_of_neg, ih h.2 hx]
      intro hkey
      have heq : g y = g x := by simpa using hkey
      exact h.1 (heq ▸ List.mem_map_of_mem hx)

theorem lookup_iff_mem [BEq κ] [LawfulBEq κ] {l : List (κ × α)} {k : κ} {x : α}
    (h : (l.map Prod.fst).Nodup) : l.lookup k = some x ↔ (k, x) ∈ l := by
  induction l with
  | nil => simp
  | cons entry l ih =>
    obtain ⟨key, value⟩ := entry
    rw [List.map_cons, List.nodup_cons] at h
    by_cases hk : k = key
    · subst hk
      rw [List.lookup_cons_self, Option.some.injEq, List.mem_cons, Prod.mk.injEq]
      refine ⟨fun heq => .inl ⟨rfl, heq.symm⟩, ?_⟩
      rintro (⟨-, heq⟩ | hmem)
      · exact heq.symm
      · exact absurd (List.mem_map_of_mem hmem) h.1
    · have hbeq : (k == key) = false := by simpa using hk
      rw [List.lookup_cons, hbeq, List.mem_cons, Prod.mk.injEq]
      exact ⟨fun hlookup => .inr ((ih h.2).mp hlookup), fun hmem =>
        (ih h.2).mpr (hmem.resolve_left fun heq => hk heq.1)⟩

end List
