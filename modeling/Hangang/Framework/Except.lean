import Mathlib.Logic.Basic

/-! # Computations That May Fail

    Inversion rules for `Except`: what a computation that succeeded must have done;
    and `ensure`, the check that fails with its error. -/

namespace Except

variable {ε α β : Type}

theorem ok_pair_inj {a a' : α} {b b' : β}
    (h : (.ok (a, b) : Except ε (α × β)) = .ok (a', b')) : a = a' ∧ b = b' :=
  Prod.mk.inj (Except.ok.inj h)

theorem ok_bind (a : α) (f : α → Except ε β) : (Except.ok a >>= f) = f a := rfl

theorem bind_eq_ok {x : Except ε α} {f : α → Except ε β} {b : β} :
    x >>= f = .ok b ↔ ∃ a, x = .ok a ∧ f a = .ok b := by
  cases x with
  | error e =>
    constructor
    · intro h
      cases h
    · intro h
      obtain ⟨a, ha, -⟩ := h
      cases ha
  | ok a =>
    constructor
    · intro h
      exact ⟨a, rfl, h⟩
    · intro h
      obtain ⟨a', ha, hb⟩ := h
      obtain rfl := Except.ok.inj ha
      exact hb

theorem bind_eq_error {x : Except ε α} {f : α → Except ε β} {e : ε} :
    (x >>= f) = .error e ↔ x = .error e ∨ ∃ a, x = .ok a ∧ f a = .error e := by
  cases x with
  | error e' =>
    constructor
    · exact fun h => .inl (congrArg Except.error (Except.error.inj h))
    · rintro (h | ⟨a, h, -⟩)
      · exact congrArg Except.error (Except.error.inj h)
      · cases h
  | ok a =>
    constructor
    · exact fun h => .inr ⟨a, rfl, h⟩
    · rintro (h | ⟨a', h, hf⟩)
      · cases h
      · obtain rfl := Except.ok.inj h
        exact hf

/-- A check, and what comes after it. -/
theorem bind_unit_eq_ok {x : Except ε Unit} {f : Unit → Except ε β} {b : β} :
    x >>= f = .ok b ↔ x = .ok () ∧ f () = .ok b := by
  rw [bind_eq_ok]
  constructor
  · intro h
    obtain ⟨_, hx, hf⟩ := h
    exact ⟨hx, hf⟩
  · intro h
    exact ⟨(), h⟩

theorem map_eq_ok {x : Except ε α} {f : α → β} {b : β} :
    x.map f = .ok b ↔ ∃ a, x = .ok a ∧ f a = b := by
  cases x with
  | error e =>
    constructor
    · intro h
      cases h
    · intro h
      obtain ⟨a, ha, -⟩ := h
      cases ha
  | ok a =>
    constructor
    · intro h
      exact ⟨a, rfl, Except.ok.inj h⟩
    · intro h
      obtain ⟨a', ha, hb⟩ := h
      obtain rfl := Except.ok.inj ha
      exact congrArg Except.ok hb

/-- `ensure!`. -/
def ensure (c : Prop) [Decidable c] (e : ε) : Except ε Unit := if c then .ok () else .error e

theorem ensure_eq_ok {c : Prop} [Decidable c] {e : ε} {u : Unit} :
    ensure c e = .ok u ↔ c := by
  unfold ensure
  by_cases h : c
  · simp [h]
  · simp [h]

@[simp] theorem ensure_of {c : Prop} [Decidable c] {e : ε} (h : c) : ensure c e = .ok () :=
  if_pos h

@[simp] theorem ensure_of_not {c : Prop} [Decidable c] {e : ε} (h : ¬ c) :
    ensure c e = .error e :=
  if_neg h

/-- A loop of checks succeeds when each of them does. -/
theorem forM_eq_ok {f : α → Except ε Unit} {xs : List α} {u : Unit} :
    xs.forM f = .ok u ↔ ∀ x ∈ xs, f x = .ok () := by
  induction xs with
  | nil => exact ⟨fun _ _ h => absurd h List.not_mem_nil, fun _ => rfl⟩
  | cons x xs ih =>
    rw [show (x :: xs).forM f = (f x >>= fun _ => xs.forM f) from rfl, bind_eq_ok]
    constructor
    · rintro ⟨_, hx, hxs⟩ y hy
      rcases List.mem_cons.mp hy with rfl | hmem
      · exact hx
      · exact ih.mp hxs y hmem
    · intro h
      exact ⟨(), h x List.mem_cons_self, ih.mpr fun y hy => h y (List.mem_cons_of_mem x hy)⟩

/-- **Fold rule**: what each turn of a loop preserves holds at its end. -/
theorem foldlM_invariant {f : β → α → Except ε β} {xs : List α} (Inv : β → Prop)
    (hstep : ∀ b, ∀ x ∈ xs, ∀ b', Inv b → f b x = .ok b' → Inv b') {b b' : β} (hb : Inv b)
    (h : xs.foldlM f b = .ok b') : Inv b' := by
  induction xs generalizing b with
  | nil => exact Except.ok.inj h ▸ hb
  | cons x xs ih =>
    rw [List.foldlM_cons, bind_eq_ok] at h
    obtain ⟨mid, hmid, hrest⟩ := h
    have hInv : Inv mid := hstep b x List.mem_cons_self mid hb hmid
    exact ih (fun b y hy => hstep b y (List.mem_cons_of_mem x hy)) hInv hrest

theorem toOption_eq_some {x : Except ε α} {a : α} : x.toOption = some a ↔ x = .ok a := by
  cases x <;> simp [Except.toOption]

/-- A loop that returns what it reads. -/
theorem mapM_eq_self {g : α → Except ε α} {l : List α} (h : ∀ x ∈ l, g x = .ok x) :
    l.mapM g = .ok l := by
  induction l with
  | nil => rfl
  | cons x l ih =>
    rw [List.mapM_cons, h x List.mem_cons_self,
      ih fun y hy => h y (List.mem_cons_of_mem _ hy)]
    rfl

end Except
