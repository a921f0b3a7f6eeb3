import Hangang.Framework.Machine
import Mathlib.Algebra.GroupWithZero.Nat

/-! # Threads over a Shared State

    A program gives every thread its atomic steps over a shared state. A pool is
    the shared state with the threads that were started so far; a thread is
    named by its position. The events of a pool are a call that starts a thread,
    one step of one thread, and what the environment does to the shared state,
    so a list of events is an interleaving.

    * **Assumptions**: `under A` has the interleavings in which `A` holds of the
      shared state and the thread before each step.
    * **Proof outlines**: an assertion about the shared state and one about each
      thread, kept by the thread's own steps and by everyone else's. They hold
      in every pool that a run reaches. -/

/-- The threads that run over a shared state. The choice of a step is what the
    thread does not decide itself. -/
structure Program (Shared Thread Call Choice Env : Type) where
  start : Call → Option Thread
  advance : Nat → Shared → Thread → Choice → Option (Shared × Thread)
  tick : Shared → Env → Option Shared

structure Pool (Shared Thread : Type) where
  shared : Shared
  threads : List Thread

/-! ## Replacing one thread -/

namespace Pool

variable {Thread : Type} {threads : List Thread} {tid : Nat} {th x : Thread}

theorem mem_set_iff (hth : threads[tid]? = some th) (hne : th ≠ x) {th' : Thread} :
    x ∈ threads.set tid th' ↔ x = th' ∨ x ∈ threads := by
  have hlt : tid < threads.length := (List.getElem?_eq_some_iff.mp hth).1
  constructor
  · intro h
    exact (List.mem_or_eq_of_mem_set h).symm
  · rintro (rfl | h)
    · exact List.mem_set hlt x
    · obtain ⟨i, hi⟩ := List.getElem?_of_mem h
      have htid : tid ≠ i := by
        rintro rfl
        exact hne (Option.some.inj (hth.symm.trans hi))
      exact List.mem_of_getElem? ((List.getElem?_set_ne htid).trans hi)

theorem countP_set (p : Thread → Bool) (hth : threads[tid]? = some th) (th' : Thread) :
    (threads.set tid th').countP p + (p th).toNat = threads.countP p + (p th').toNat := by
  obtain ⟨hlt, rfl⟩ := List.getElem?_eq_some_iff.mp hth
  have hpos : p threads[tid] = true → 0 < threads.countP p := fun h =>
    List.countP_pos_iff.mpr ⟨_, List.getElem_mem hlt, h⟩
  rw [List.countP_set hlt]
  cases hp : p threads[tid] with
  | false => cases p th' <;> simp
  | true =>
    have := hpos hp
    cases p th' <;> simp <;> omega

/-- A total over the threads changes by what the replaced thread contributes. -/
theorem sum_map_set (f : Thread → Nat) (hth : threads[tid]? = some th) (th' : Thread) :
    ((threads.set tid th').map f).sum + f th = (threads.map f).sum + f th' := by
  induction threads generalizing tid with
  | nil => cases hth
  | cons first rest ih =>
    cases tid with
    | zero =>
      obtain rfl : first = th := Option.some.inj hth
      simp only [List.set_cons_zero, List.map_cons, List.sum_cons]
      omega
    | succ tid =>
      have hrest := @ih tid hth
      simp only [List.set_cons_succ, List.map_cons, List.sum_cons]
      omega

theorem le_sum_map (f : Thread → Nat) (hth : threads[tid]? = some th) :
    f th ≤ (threads.map f).sum := by
  induction threads generalizing tid with
  | nil => cases hth
  | cons first rest ih =>
    rw [List.map_cons, List.sum_cons]
    cases tid with
    | zero =>
      obtain rfl : first = th := Option.some.inj hth
      exact Nat.le_add_right _ _
    | succ tid => exact Nat.le_add_left_of_le (@ih tid hth)

end Pool

inductive Event (Call Choice Env : Type) where
  | start (call : Call)
  | step (tid : Nat) (choice : Choice)
  | tick (env : Env)
  deriving DecidableEq, Repr

namespace Program

variable {Shared Thread Call Choice Env : Type}

def take (P : Program Shared Thread Call Choice Env) (pool : Pool Shared Thread) :
    Event Call Choice Env → Option (Pool Shared Thread)
  | .start call => (P.start call).map fun th => ⟨pool.shared, pool.threads ++ [th]⟩
  | .step tid choice =>
    pool.threads[tid]?.bind fun th =>
      (P.advance tid pool.shared th choice).map fun next =>
        ⟨next.1, pool.threads.set tid next.2⟩
  | .tick env => (P.tick pool.shared env).map fun s => ⟨s, pool.threads⟩

/-- All interleavings of the threads. -/
def machine (P : Program Shared Thread Call Choice Env) :
    Machine (Pool Shared Thread) (Event Call Choice Env) where
  step := P.take

/-- `A` holds where a thread takes a step. -/
def Assumed (A : Shared → Thread → Bool) (pool : Pool Shared Thread) :
    Event Call Choice Env → Bool
  | .step tid _ => pool.threads[tid]?.all (A pool.shared)
  | _ => true

/-- The interleavings that keep to an assumption. -/
def under (P : Program Shared Thread Call Choice Env) (A : Shared → Thread → Bool) :
    Machine (Pool Shared Thread) (Event Call Choice Env) :=
  P.machine.restrict fun pool event => Assumed A pool event = true

/-- Nothing is assumed. -/
theorem under_true (P : Program Shared Thread Call Choice Env) :
    P.under (fun _ _ => true) = P.machine := by
  have hassumed : ∀ (pool : Pool Shared Thread) (event : Event Call Choice Env),
      Assumed (fun _ _ => true) pool event = true := by
    intro pool event
    cases event with
    | step tid choice =>
      show pool.threads[tid]?.all (fun _ => true) = true
      cases pool.threads[tid]? <;> rfl
    | _ => rfl
  unfold under Machine.restrict
  congr 1
  funext pool event
  exact if_pos (hassumed pool event)

/-- What an event can do to a pool. -/
inductive Took (P : Program Shared Thread Call Choice Env) (A : Shared → Thread → Bool)
    (pool : Pool Shared Thread) : Event Call Choice Env → Pool Shared Thread → Prop
  | start {call : Call} {th : Thread} (h : P.start call = some th) :
      Took P A pool (.start call) ⟨pool.shared, pool.threads ++ [th]⟩
  | step {tid : Nat} {choice : Choice} {th th' : Thread} {s' : Shared}
      (hth : pool.threads[tid]? = some th) (hA : A pool.shared th = true)
      (h : P.advance tid pool.shared th choice = some (s', th')) :
      Took P A pool (.step tid choice) ⟨s', pool.threads.set tid th'⟩
  | tick {env : Env} {s' : Shared} (h : P.tick pool.shared env = some s') :
      Took P A pool (.tick env) ⟨s', pool.threads⟩

theorem took_of_step {P : Program Shared Thread Call Choice Env} {A : Shared → Thread → Bool}
    {pool pool' : Pool Shared Thread} {event : Event Call Choice Env}
    (h : (P.under A).step pool event = some pool') : P.Took A pool event pool' := by
  obtain ⟨hA, h⟩ := Machine.restrict_step_eq_some.mp h
  cases event with
  | start call =>
    obtain ⟨th, hth, rfl⟩ := Option.map_eq_some_iff.mp h
    exact .start hth
  | step tid choice =>
    obtain ⟨th, hth, hnext⟩ := Option.bind_eq_some_iff.mp h
    obtain ⟨⟨s', th'⟩, hadvance, rfl⟩ := Option.map_eq_some_iff.mp hnext
    rw [Assumed, hth, Option.all_some] at hA
    exact .step hth hA hadvance
  | tick env =>
    obtain ⟨s', hs', rfl⟩ := Option.map_eq_some_iff.mp h
    exact .tick hs'

/-! ## Proof outlines -/

/-- A proof outline: `Glob` about the shared state, `Ok tid` about the thread with
    that number, and the proofs that each step keeps its thread's assertion and
    does not interfere with the others'. -/
structure Outline (P : Program Shared Thread Call Choice Env) (A : Shared → Thread → Bool) where
  Glob : Shared → Prop
  Ok : Nat → Shared → Thread → Prop
  start : ∀ {s call th} (tid : Nat), Glob s → P.start call = some th → Ok tid s th
  own : ∀ {tid s th choice s' th'}, Glob s → Ok tid s th → A s th = true →
    P.advance tid s th choice = some (s', th') → Glob s' ∧ Ok tid s' th'
  interference : ∀ {tid i s th other choice s' th'}, i ≠ tid → Glob s → Ok tid s th →
    A s th = true → Ok i s other → P.advance tid s th choice = some (s', th') → Ok i s' other
  tick : ∀ {s env s'}, Glob s → P.tick s env = some s' →
    Glob s' ∧ ∀ i th, Ok i s th → Ok i s' th

namespace Outline

variable {P : Program Shared Thread Call Choice Env} {A : Shared → Thread → Bool}
  (o : P.Outline A)

/-- The assertions of the outline hold in a pool. -/
structure Holds (pool : Pool Shared Thread) : Prop where
  glob : o.Glob pool.shared
  ok : ∀ i th, pool.threads[i]? = some th → o.Ok i pool.shared th

theorem holds_initial {s : Shared} (hs : o.Glob s) : o.Holds ⟨s, []⟩ :=
  ⟨hs, by simp⟩

theorem holds_took {pool pool' : Pool Shared Thread} {event : Event Call Choice Env}
    (h : o.Holds pool) (htook : P.Took A pool event pool') : o.Holds pool' := by
  obtain ⟨hglob, hok⟩ := h
  cases htook with
  | start hstart =>
    refine ⟨hglob, fun i other hi => ?_⟩
    rw [List.getElem?_append] at hi
    split at hi
    · exact hok i other hi
    · obtain rfl := List.mem_singleton.mp (List.mem_of_getElem? hi)
      exact o.start i hglob hstart
  | @step tid choice th th' s' hth hA hadvance =>
    obtain ⟨hglob', hown⟩ := o.own hglob (hok tid th hth) hA hadvance
    refine ⟨hglob', fun i other hi => ?_⟩
    by_cases hi' : i = tid
    · subst hi'
      rw [List.getElem?_set_self (List.getElem?_eq_some_iff.mp hth).1, Option.some.injEq] at hi
      exact hi ▸ hown
    · rw [List.getElem?_set_ne (Ne.symm hi')] at hi
      exact o.interference hi' hglob (hok tid th hth) hA (hok i other hi) hadvance
  | tick htick =>
    obtain ⟨hglob', hok'⟩ := o.tick hglob htick
    exact ⟨hglob', fun i th hi => hok' i th (hok i th hi)⟩

/-- **The assertions of an outline hold in every reachable pool.** -/
theorem holds_run {pool pool' : Pool Shared Thread} {events : List (Event Call Choice Env)}
    (h : o.Holds pool) (hrun : (P.under A).run pool events = some pool') : o.Holds pool' :=
  Machine.run_invariant (fun _ _ _ h hstep => o.holds_took h (took_of_step hstep)) h hrun

end Outline

end Program
