import Hangang.Framework.Bytes
import Mathlib.Data.List.Pairwise

/-! # The Lifetime of a Guard Query

    `Lifetime`: the budget of a decision, counted from the start of its query. The
    clock is outside the program: a reading is any number of nanoseconds, or a
    failure. A lifetime whose clock has failed or gone back is over for good. -/

namespace Guard

def nanosPerMs : Nat := 1000000

/-- `Duration::checked_sub` and `u64::checked_sub`. -/
def checkedSub (a b : Nat) : Option Nat := if b ≤ a then some (a - b) else none

structure Lifetime where
  last : Nat
  failed : Bool
  /-- Ghost: the readings taken for it, the latest first. -/
  seen : List (Option Nat)
  deriving DecidableEq, Repr

namespace Lifetime

def start : Lifetime := ⟨0, false, []⟩

/-- The budget that is left of `ttlMs` at a reading: one quantum less. -/
def budget (ttlMs elapsed : Nat) : Option Nat :=
  (checkedSub ttlMs 1).bind fun ms => (checkedSub (ms * nanosPerMs) elapsed).filter (· ≠ 0)

def remaining (reading : Option Nat) (ttlMs : Nat) (l : Lifetime) : Option Nat × Lifetime :=
  if l.failed then (none, l)
  else
    match reading with
    | none => (none, { l with failed := true, seen := none :: l.seen })
    | some elapsed =>
      if elapsed < l.last then (none, { l with failed := true, seen := some elapsed :: l.seen })
      else (budget ttlMs elapsed, { l with last := elapsed, seen := some elapsed :: l.seen })

theorem budget_isSome {ttlMs elapsed : Nat} :
    (budget ttlMs elapsed).isSome = true ↔ elapsed < (ttlMs - 1) * nanosPerMs := by
  unfold budget checkedSub
  by_cases hpos : 1 ≤ ttlMs
  · rw [if_pos hpos, Option.bind_some]
    by_cases hle : elapsed ≤ (ttlMs - 1) * nanosPerMs
    · rw [if_pos hle, Option.filter_some]
      by_cases hzero : (ttlMs - 1) * nanosPerMs - elapsed = 0
      · simp only [hzero, ne_eq, not_true_eq_false, decide_false, Bool.false_eq_true, if_false,
          Option.isSome_none, false_iff, Nat.not_lt]
        omega
      · simp only [hzero, ne_eq, not_false_eq_true, decide_true, if_true, Option.isSome_some,
          true_iff]
        omega
    · rw [if_neg hle]
      simp only [Option.filter_none, Option.isSome_none, Bool.false_eq_true, false_iff, Nat.not_lt]
      omega
  · have hzero : ttlMs - 1 = 0 := by omega
    rw [if_neg hpos, hzero]
    simp

/-- A lifetime is served from only at a good reading within the budget. -/
theorem remaining_isSome {reading : Option Nat} {ttlMs : Nat} {l : Lifetime} :
    (l.remaining reading ttlMs).1.isSome = true ↔
      l.failed = false ∧ ∃ elapsed, reading = some elapsed ∧ l.last ≤ elapsed ∧
        elapsed < (ttlMs - 1) * nanosPerMs := by
  unfold remaining
  by_cases hfailed : l.failed = true
  · simp [hfailed]
  · rw [if_neg hfailed]
    have hfalse : l.failed = false := by simpa using hfailed
    cases reading with
    | none => simp
    | some elapsed =>
      dsimp only
      by_cases hback : elapsed < l.last
      · rw [if_pos hback]
        simp only [Option.isSome_none, Bool.false_eq_true, Option.some.injEq, false_iff, not_and,
          not_exists]
        rintro - _ rfl hle
        omega
      · rw [if_neg hback, budget_isSome]
        constructor
        · intro h
          exact ⟨hfalse, elapsed, rfl, Nat.le_of_not_lt hback, h⟩
        · rintro ⟨-, _, heq, -, h⟩
          obtain rfl := Option.some.inj heq
          exact h

/-! ## What has been seen -/

/-- No reading failed, and none was below an earlier one. -/
def Steady (seen : List (Option Nat)) : Prop :=
  ∃ readings : List Nat, seen = readings.map some ∧ readings.Pairwise (· ≥ ·)

/-- A lifetime that has not failed has seen only good readings. -/
structure Sound (l : Lifetime) : Prop where
  steady : l.failed = false →
    ∃ readings : List Nat, l.seen = readings.map some ∧ readings.Pairwise (· ≥ ·) ∧
      ∀ reading ∈ readings, reading ≤ l.last

theorem sound_start : Sound start :=
  ⟨fun _ => ⟨[], rfl, .nil, fun _ h => absurd h List.not_mem_nil⟩⟩

theorem Sound.remaining {l : Lifetime} (h : Sound l) (reading : Option Nat) (ttlMs : Nat) :
    Sound (l.remaining reading ttlMs).2 := by
  unfold Lifetime.remaining
  split
  · exact h
  · next hfailed =>
    have hfalse : l.failed = false := by simpa using hfailed
    split
    · exact ⟨fun hf => Bool.noConfusion hf⟩
    · next elapsed =>
      split
      · exact ⟨fun hf => Bool.noConfusion hf⟩
      · next hback =>
        refine ⟨fun _ => ?_⟩
        obtain ⟨readings, hseen, hsorted, hlast⟩ := h.steady hfalse
        have hle : ∀ reading ∈ readings, reading ≤ elapsed :=
          fun reading hmem => Nat.le_trans (hlast reading hmem) (Nat.le_of_not_lt hback)
        refine ⟨elapsed :: readings, by rw [List.map_cons, ← hseen],
          List.pairwise_cons.mpr ⟨hle, hsorted⟩, fun reading hmem => ?_⟩
        rcases List.mem_cons.mp hmem with rfl | hmem
        · exact Nat.le_refl _
        · exact hle reading hmem

/-- What was seen stays seen. -/
theorem seen_suffix_remaining (l : Lifetime) (reading : Option Nat) (ttlMs : Nat) :
    l.seen <:+ (l.remaining reading ttlMs).2.seen := by
  unfold remaining
  split
  · exact List.suffix_refl _
  · split
    · exact List.suffix_cons _ _
    · split
      · exact List.suffix_cons _ _
      · exact List.suffix_cons _ _

/-- The readings of a lifetime that is served from, this one included. -/
theorem Sound.steady_of_remaining {l : Lifetime} (h : Sound l) {reading : Option Nat}
    {ttlMs : Nat} (hserved : (l.remaining reading ttlMs).1.isSome = true) :
    (l.remaining reading ttlMs).2.seen = reading :: l.seen ∧
      Steady (l.remaining reading ttlMs).2.seen := by
  obtain ⟨hfalse, elapsed, rfl, hle, -⟩ := remaining_isSome.mp hserved
  have hstate : (l.remaining (some elapsed) ttlMs).2 =
      { l with last := elapsed, seen := some elapsed :: l.seen } := by
    rw [Lifetime.remaining, if_neg (by simp [hfalse]), if_neg (Nat.not_lt.mpr hle)]
  obtain ⟨readings, hseen, hsorted, -⟩ := (h.remaining (some elapsed) ttlMs).steady
    (by rw [hstate]; exact hfalse)
  exact ⟨by rw [hstate], readings, hseen, hsorted⟩

end Lifetime

end Guard
