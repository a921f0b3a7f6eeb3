import Mathlib.Data.List.Basic
import Mathlib.Data.List.Nodup

/-! # Loops over Encoded Items

    Parsers of binary formats read a list of items until nothing is left, refuse
    an item whose key they have seen, and look for the item with one key. The
    loops are given by their two equations: nothing left, and one turn.

    * **Loop rule**: the loop accepts exactly the concatenated encodings of items
      with distinct keys.
    * **Lookup rule**: what is found is what the item with the key says. -/

namespace Items

variable {Item Key State β γ : Type} {key : Item → Key} {encode : Item → List β}

/-- The state after the items, one after the other. -/
inductive Folds (Step : Item → State → State → Prop) : List Item → State → State → Prop where
  | nil {a : State} : Folds Step [] a a
  | cons {item : Item} {items : List Item} {a b c : State} (hstep : Step item a b)
      (hrest : Folds Step items b c) : Folds Step (item :: items) a c

/-- A loop: `Run seen a input r` says that it ends with `r`. -/
structure Loop (key : Item → Key) (encode : Item → List β) (Step : Item → State → State → Prop)
    (Run : List Key → State → List β → State → Prop) : Prop where
  encode_ne_nil : ∀ item, encode item ≠ []
  done : ∀ seen a r, Run seen a [] r ↔ r = a
  turn : ∀ seen a input r, input ≠ [] →
    (Run seen a input r ↔ ∃ item rest b, key item ∉ seen ∧ input = encode item ++ rest ∧
      Step item a b ∧ Run (key item :: seen) b rest r)

section loop

variable {Step : Item → State → State → Prop} {Run : List Key → State → List β → State → Prop}
  {seen : List Key} {a r : State} {input : List β}

theorem Loop.sound (h : Loop key encode Step Run) (hrun : Run seen a input r) :
    ∃ items, input = items.flatMap encode ∧ (items.map key).Nodup ∧
      (∀ item ∈ items, key item ∉ seen) ∧ Folds Step items a r := by
  -- every turn takes at least one symbol
  induction hlength : input.length using Nat.strongRecOn generalizing seen a input with
  | _ n ih =>
    by_cases hinput : input = []
    · subst hinput
      rw [(h.done seen a r).mp hrun]
      exact ⟨[], rfl, List.nodup_nil, fun _ hmem => absurd hmem List.not_mem_nil, .nil⟩
    · obtain ⟨item, rest, b, hnew, rfl, hstep, hrest⟩ := (h.turn seen a input r hinput).mp hrun
      have hpos : 0 < (encode item).length := List.length_pos_iff.mpr (h.encode_ne_nil item)
      have hlt : rest.length < n := by
        rw [← hlength, List.length_append]
        omega
      obtain ⟨items, rfl, hnodup, hseen, hfolds⟩ := ih rest.length hlt hrest rfl
      refine ⟨item :: items, rfl, ?_, ?_, .cons hstep hfolds⟩
      · rw [List.map_cons, List.nodup_cons]
        refine ⟨fun hmem => ?_, hnodup⟩
        obtain ⟨other, hother, hkey⟩ := List.mem_map.mp hmem
        exact hseen other hother (hkey ▸ List.mem_cons_self)
      · intro other hother
        rcases List.mem_cons.mp hother with rfl | hother
        · exact hnew
        · exact fun hmem => hseen other hother (List.mem_cons_of_mem _ hmem)

theorem Loop.complete (h : Loop key encode Step Run) {items : List Item}
    (hnodup : (items.map key).Nodup) (hseen : ∀ item ∈ items, key item ∉ seen)
    (hfolds : Folds Step items a r) : Run seen a (items.flatMap encode) r := by
  induction hfolds generalizing seen with
  | nil => exact (h.done seen _ _).mpr rfl
  | @cons item items a b c hstep hrest ih =>
    rw [List.map_cons, List.nodup_cons] at hnodup
    rw [List.forall_mem_cons] at hseen
    rw [List.flatMap_cons]
    have hinput : encode item ++ items.flatMap encode ≠ [] := fun hnil =>
      h.encode_ne_nil item (List.append_eq_nil_iff.mp hnil).1
    refine (h.turn seen a _ c hinput).mpr ⟨item, _, b, hseen.1, rfl, hstep, ih hnodup.2 ?_⟩
    intro other hother hmem
    rcases List.mem_cons.mp hmem with hkey | hmem
    · exact hnodup.1 (hkey ▸ List.mem_map_of_mem hother)
    · exact hseen.2 other hother hmem

/-- **Loop rule.** -/
theorem Loop.run_iff (h : Loop key encode Step Run) :
    Run [] a input r ↔ ∃ items, input = items.flatMap encode ∧ (items.map key).Nodup ∧
      Folds Step items a r := by
  constructor
  · intro hrun
    obtain ⟨items, hinput, hnodup, -, hfolds⟩ := h.sound hrun
    exact ⟨items, hinput, hnodup, hfolds⟩
  · rintro ⟨items, rfl, hnodup, hfolds⟩
    exact h.complete hnodup (fun _ _ => List.not_mem_nil) hfolds

end loop

/-! ## Looking for one key -/

/-- The item with the key `k` is read; others leave the state alone. With `guard`,
    it must be the first. -/
def Reads (key : Item → Key) (k : Key) (guard : Prop) (Value : Item → γ → Prop) (item : Item)
    (a b : Option γ) : Prop :=
  (key item = k ∧ (guard → a = none) ∧ ∃ c, Value item c ∧ b = some c) ∨ key item ≠ k ∧ b = a

variable {k : Key} {guard : Prop} {Value : Item → γ → Prop} {items : List Item}

theorem folds_reads_of_not_mem {a b : Option γ} (hnone : k ∉ items.map key) :
    Folds (Reads key k guard Value) items a b ↔ b = a := by
  induction items generalizing a with
  | nil =>
    constructor
    · rintro ⟨⟩
      rfl
    · rintro rfl
      exact .nil
  | cons item items ih =>
    rw [List.map_cons, List.mem_cons, not_or] at hnone
    constructor
    · rintro (_ | ⟨⟨heq, -⟩ | ⟨-, rfl⟩, hrest⟩)
      · exact absurd heq.symm hnone.1
      · exact (ih hnone.2).mp hrest
    · intro h
      exact .cons (.inr ⟨fun heq => hnone.1 heq.symm, rfl⟩) ((ih hnone.2).mpr h)

/-- **Lookup rule.** -/
theorem folds_reads_iff (hnodup : (items.map key).Nodup) {c : γ} :
    Folds (Reads key k guard Value) items none (some c) ↔
      ∃ item ∈ items, key item = k ∧ Value item c := by
  induction items with
  | nil =>
    refine iff_of_false (fun h => by cases h) ?_
    rintro ⟨item, hmem, -⟩
    cases hmem
  | cons item items ih =>
    rw [List.map_cons, List.nodup_cons] at hnodup
    constructor
    · rintro (_ | ⟨⟨heq, -, d, hvalue, rfl⟩ | ⟨-, rfl⟩, hrest⟩)
      · rw [folds_reads_of_not_mem (heq ▸ hnodup.1), Option.some.injEq] at hrest
        exact ⟨item, List.mem_cons_self, heq, hrest ▸ hvalue⟩
      · obtain ⟨other, hother, hfound⟩ := (ih hnodup.2).mp hrest
        exact ⟨other, List.mem_cons_of_mem _ hother, hfound⟩
    · rintro ⟨other, hother, hkey, hvalue⟩
      rcases List.mem_cons.mp hother with rfl | hother
      · refine .cons (.inl ⟨hkey, fun _ => rfl, c, hvalue, rfl⟩) ?_
        exact (folds_reads_of_not_mem (hkey ▸ hnodup.1)).mpr rfl
      · have hne : key item ≠ k := fun heq =>
          hnodup.1 (heq.trans hkey.symm ▸ List.mem_map_of_mem hother)
        exact .cons (.inr ⟨hne, rfl⟩) ((ih hnodup.2).mpr ⟨other, hother, hkey, hvalue⟩)

end Items
