import Mathlib.Data.List.Basic
import Mathlib.Data.List.Induction
import Mathlib.Order.Defs.PartialOrder

/-! # Labelled Machines and Their Runs

    A machine is a partial step function on a state type. A label says which
    operation is taken and carries everything the environment decides (who
    acts, with which arguments, at which clock reading), so a finite list of
    labels determines a finite run. Interleavings of several parties are lists
    of labels, too: the label names the party.

    The module collects the rules that later modules use for every machine:

    * **Runs**: `run`, and how it splits along `++`.
    * **Invariant rule**: what one step preserves, a run preserves.
    * **Relation rule**: a reflexive and transitive relation that every step
      respects relates the two ends of a run.
    * **Restriction**: the runs whose steps all meet a condition on the state
      before the step. -/

/-- A machine with states `State` and labels `Label`; `step s l = none` means
    that `l` cannot be taken in `s`. -/
structure Machine (State : Type u) (Label : Type v) where
  step : State → Label → Option State

namespace Machine

variable {State : Type u} {Label : Type v} (m : Machine State Label)

/-! ## Runs -/

/-- The state after taking the labels in order, if each can be taken. -/
def run (s : State) : List Label → Option State
  | [] => some s
  | l :: ls => (m.step s l).bind fun s' => run s' ls

@[simp] theorem run_nil (s : State) : m.run s [] = some s := rfl

theorem run_cons (s : State) (l : Label) (ls : List Label) :
    m.run s (l :: ls) = (m.step s l).bind fun s' => m.run s' ls := rfl

theorem run_cons_eq_some {s s'' : State} {l : Label} {ls : List Label} :
    m.run s (l :: ls) = some s'' ↔ ∃ s', m.step s l = some s' ∧ m.run s' ls = some s'' := by
  rw [run_cons, Option.bind_eq_some_iff]

theorem run_append (s : State) (ls ls' : List Label) :
    m.run s (ls ++ ls') = (m.run s ls).bind fun s' => m.run s' ls' := by
  induction ls generalizing s with
  | nil => rfl
  | cons l ls ih =>
    rw [List.cons_append, run_cons, run_cons]
    cases m.step s l with
    | none => rfl
    | some s' => exact ih s'

theorem run_append_eq_some {s s'' : State} {ls ls' : List Label} :
    m.run s (ls ++ ls') = some s'' ↔
      ∃ s', m.run s ls = some s' ∧ m.run s' ls' = some s'' := by
  rw [run_append, Option.bind_eq_some_iff]

theorem run_snoc_eq_some {s s'' : State} {l : Label} {ls : List Label} :
    m.run s (ls ++ [l]) = some s'' ↔
      ∃ s', m.run s ls = some s' ∧ m.step s' l = some s'' := by
  rw [run_append_eq_some]
  constructor
  · rintro ⟨s', hls, hl⟩
    obtain ⟨t, ht, rfl⟩ : ∃ t, m.step s' l = some t ∧ t = s'' := by
      simpa [run_cons_eq_some] using hl
    exact ⟨s', hls, ht⟩
  · rintro ⟨s', hls, hl⟩
    exact ⟨s', hls, by rw [run_cons_eq_some]; exact ⟨s'', hl, rfl⟩⟩

/-! ## Proof rules -/

/-- **Invariant rule**: what every step preserves holds at the end of a run. -/
theorem run_invariant {m : Machine State Label} {Inv : State → Prop}
    (hstep : ∀ s l s', Inv s → m.step s l = some s' → Inv s')
    {s s' : State} {ls : List Label} (hs : Inv s) (hrun : m.run s ls = some s') : Inv s' := by
  induction ls generalizing s with
  | nil =>
    rw [run_nil, Option.some.injEq] at hrun
    exact hrun ▸ hs
  | cons l ls ih =>
    obtain ⟨t, hl, ht⟩ := m.run_cons_eq_some.mp hrun
    exact ih (hstep s l t hs hl) ht

/-- **Invariant rule over a set of labels**: only the labels of the run have to
    preserve the invariant. -/
theorem run_invariant_of_labels {m : Machine State Label} (Inv : State → Prop)
    (P : Label → Prop) (hstep : ∀ s l s', P l → Inv s → m.step s l = some s' → Inv s')
    {s s' : State} {ls : List Label} (hP : ∀ l ∈ ls, P l) (hs : Inv s)
    (hrun : m.run s ls = some s') : Inv s' := by
  induction ls generalizing s with
  | nil =>
    rw [run_nil, Option.some.injEq] at hrun
    exact hrun ▸ hs
  | cons l ls ih =>
    obtain ⟨t, hl, ht⟩ := m.run_cons_eq_some.mp hrun
    have ht' : Inv t := hstep s l t (hP l List.mem_cons_self) hs hl
    exact ih (fun l' hl' => hP l' (List.mem_cons_of_mem _ hl')) ht' ht

/-- **History rule**: an invariant that speaks about the labels taken so far. -/
theorem run_history {m : Machine State Label} {Inv : List Label → State → Prop}
    (hstep : ∀ ls s l s', Inv ls s → m.step s l = some s' → Inv (ls ++ [l]) s')
    {s s' : State} {ls : List Label} (hs : Inv [] s) (hrun : m.run s ls = some s') :
    Inv ls s' := by
  induction ls using List.reverseRecOn generalizing s' with
  | nil =>
    rw [run_nil, Option.some.injEq] at hrun
    exact hrun ▸ hs
  | append_singleton ls l ih =>
    obtain ⟨t, ht, hl⟩ := m.run_snoc_eq_some.mp hrun
    exact hstep ls t l s' (ih ht) hl

/-- **Relation rule**: a preorder on states that every step from an invariant
    state respects relates the two ends of a run. -/
theorem run_relation {m : Machine State Label} (Inv : State → Prop)
    (R : State → State → Prop) (hrefl : ∀ s, R s s)
    (htrans : ∀ s t u, R s t → R t u → R s u)
    (hinv : ∀ s l s', Inv s → m.step s l = some s' → Inv s')
    (hstep : ∀ s l s', Inv s → m.step s l = some s' → R s s')
    {s s' : State} {ls : List Label} (hs : Inv s) (hrun : m.run s ls = some s') : R s s' := by
  induction ls generalizing s with
  | nil =>
    rw [run_nil, Option.some.injEq] at hrun
    exact hrun ▸ hrefl s
  | cons l ls ih =>
    obtain ⟨t, hl, ht⟩ := m.run_cons_eq_some.mp hrun
    exact htrans s t s' (hstep s l t hs hl) (ih (hinv s l t hs hl) ht)

/-! ## Restriction -/

/-- The machine that takes a step only where `C` holds of the state before it. -/
def restrict (C : State → Label → Prop) [∀ s l, Decidable (C s l)] : Machine State Label where
  step s l := if C s l then m.step s l else none

theorem restrict_step_eq_some {m : Machine State Label} {C : State → Label → Prop}
    [∀ s l, Decidable (C s l)] {s s' : State} {l : Label} :
    (m.restrict C).step s l = some s' ↔ C s l ∧ m.step s l = some s' := by
  unfold restrict
  by_cases h : C s l <;> simp [h]

end Machine
