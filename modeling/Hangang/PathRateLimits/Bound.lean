import Hangang.PathRateLimits.Bucket

/-! # The Rate-Limit Bound

    How much a bucket admits, whatever the instants of the calls are.

    * **Credit**: the clock of the bucket is the largest instant seen. What was
      admitted since some call and what credit is left were there as credit, or came
      in while the clock moved.
    * **Windows**: the count of a window is what it has admitted since its start,
      and it never exceeds the limit.
    * **Refusal**: charges nothing. -/

namespace PathRateLimits

variable {rule : Rule} {s : State} {now k : Nat} {limit : Window} {window : Nat × Nat}

/-! ## One call -/

theorem admit_updated : (admitCall rule s now).2.updated = max now s.updated := by
  unfold admitCall
  dsimp only
  split <;> rfl

theorem refilled_le_burst (rule : Rule) (s : State) (now : Nat) :
    refilled rule s now ≤ rule.burst * second := Nat.min_le_right _ _

/-- The refill is at most what the rate gives for the time that passed. -/
theorem refilled_le (rule : Rule) (s : State) (now : Nat) :
    refilled rule s now ≤ s.credit + (now - s.updated) * rule.tps.getD 0 := by
  unfold refilled
  dsimp only
  omega

/-- An admitted request is paid for, a refused one costs nothing. -/
theorem admit_credit (rule : Rule) (s : State) (now : Nat) :
    (admitCall rule s now).2.credit +
        (if (admitCall rule s now).1 = true ∧ rule.tps.isSome = true then second else 0) =
      refilled rule s now := by
  unfold admitCall
  dsimp only
  split
  · simp [refresh]
  · next hadmits =>
    unfold charge exhausted at *
    cases htps : rule.tps.isSome with
    | false => simp [refresh]
    | true =>
      have henough : second ≤ refilled rule s now := by
        simp only [htps, Bool.true_and, Bool.or_eq_true, not_or, decide_eq_true_eq, Nat.not_lt]
          at hadmits
        exact hadmits.1
      simp only [refresh, and_self, if_true]
      omega

/-- The windows after the resets, before the request is charged. -/
theorem refresh_window (now : Nat) (hlimit : rule.limits[k]? = some limit)
    (hwindow : s.windows[k]? = some window) :
    (refresh rule s now).windows[k]? = some (renewed now limit window) := by
  show (rule.limits.zipWith (renewed now) s.windows)[k]? = _
  rw [List.getElem?_zipWith, hlimit, hwindow]

theorem admit_window (now : Nat) (hlimit : rule.limits[k]? = some limit)
    (hwindow : s.windows[k]? = some window) :
    (admitCall rule s now).2.windows[k]? =
      some ((renewed now limit window).1,
        (renewed now limit window).2 + if (admitCall rule s now).1 then 1 else 0) := by
  have hrefresh := refresh_window now hlimit hwindow
  unfold admitCall
  dsimp only
  split
  · exact hrefresh
  · show ((refresh rule s now).windows.map _)[k]? = _
    rw [List.getElem?_map, hrefresh]
    rfl

/-- A window with its limit used up refuses. -/
theorem lt_of_admit (hadmits : (admitCall rule s now).1 = true) (hlimit : rule.limits[k]? = some limit)
    (hwindow : s.windows[k]? = some window) : (renewed now limit window).2 < limit.requests := by
  unfold admitCall at hadmits
  dsimp only at hadmits
  split at hadmits
  · cases hadmits
  · next hroom =>
    have hpair : (limit, renewed now limit window) ∈
        rule.limits.zip (refresh rule s now).windows := by
      apply List.mem_of_getElem? (i := k)
      rw [List.getElem?_zip_eq_some]
      exact ⟨hlimit, refresh_window now hlimit hwindow⟩
    unfold exhausted at hroom
    simp only [Bool.or_eq_true, not_or, List.any_eq_true, decide_eq_true_eq] at hroom
    exact Nat.lt_of_not_le fun hle => hroom.2 ⟨_, hpair, hle⟩

/-! ## Reachable buckets -/

/-- What holds of a bucket after any calls. -/
structure Sound (rule : Rule) (s : State) : Prop where
  credit : s.credit ≤ rule.burst * second
  length : s.windows.length = rule.limits.length
  used : ∀ (k : Nat) (limit : Window) (window : Nat × Nat), rule.limits[k]? = some limit →
    s.windows[k]? = some window → window.2 ≤ limit.requests

theorem sound_new (rule : Rule) (now : Nat) : Sound rule (State.new rule now) where
  credit := Nat.le_refl _
  length := List.length_map _
  used k limit window hlimit hwindow := by
    have hwindow : (rule.limits.map fun _ => (now, 0))[k]? = some window := hwindow
    rw [List.getElem?_map, hlimit] at hwindow
    rw [← Option.some.inj hwindow]
    exact Nat.zero_le _

theorem Sound.exists_window (hsound : Sound rule s) (hlimit : rule.limits[k]? = some limit) :
    ∃ window, s.windows[k]? = some window := by
  have hlt : k < s.windows.length := by
    rw [hsound.length]
    exact (List.getElem?_eq_some_iff.mp hlimit).1
  exact ⟨_, List.getElem?_eq_getElem hlt⟩

theorem renewed_le (now : Nat) (hused : window.2 ≤ limit.requests) :
    (renewed now limit window).2 ≤ limit.requests := by
  unfold renewed
  split
  · exact Nat.zero_le _
  · exact hused

theorem Sound.admitCall (hsound : Sound rule s) (now : Nat) : Sound rule (admitCall rule s now).2 where
  credit := by
    have hcredit := admit_credit rule s now
    have hle := refilled_le_burst rule s now
    omega
  length := by
    have hlength : (refresh rule s now).windows.length = rule.limits.length := by
      show (rule.limits.zipWith (renewed now) s.windows).length = _
      rw [List.length_zipWith, hsound.length, Nat.min_self]
    unfold PathRateLimits.admitCall
    dsimp only
    split
    · exact hlength
    · exact (List.length_map _).trans hlength
  used k limit window hlimit hwindow := by
    obtain ⟨old, hold⟩ := hsound.exists_window hlimit
    rw [admit_window now hlimit hold] at hwindow
    rw [← Option.some.inj hwindow]
    have hle := renewed_le now (hsound.used k limit old hlimit hold)
    cases hadmits : (PathRateLimits.admitCall rule s now).1 with
    | false => exact hle
    | true => exact lt_of_admit hadmits hlimit hold

theorem Sound.after (hsound : Sound rule s) (calls : List Nat) : Sound rule (after rule s calls) := by
  induction calls generalizing s with
  | nil => exact hsound
  | cons now calls ih => exact ih (hsound.admitCall now)

theorem after_append (calls more : List Nat) :
    after rule s (calls ++ more) = after rule (after rule s calls) more :=
  List.foldl_append

/-! ## Credit -/

/-- The clock of the bucket is the largest instant seen. -/
theorem after_updated (calls : List Nat) :
    (after rule s calls).updated = calls.foldl max s.updated := by
  induction calls generalizing s with
  | nil => rfl
  | cons now calls ih =>
    show (after rule (admitCall rule s now).2 calls).updated = _
    rw [ih, admit_updated, List.foldl_cons, Nat.max_comm]

theorem updated_le_after (rule : Rule) (s : State) (calls : List Nat) :
    s.updated ≤ (after rule s calls).updated := by
  induction calls generalizing s with
  | nil => exact Nat.le_refl _
  | cons now calls ih =>
    have hstep : s.updated ≤ (admitCall rule s now).2.updated := by
      rw [admit_updated]
      exact Nat.le_max_right _ _
    exact Nat.le_trans hstep (ih _)

/-- **Credit is conserved**: what was admitted and what is left came from somewhere. -/
theorem admitted_add_credit_le {tps : Nat} (htps : rule.tps = some tps) (calls : List Nat) :
    second * admitted rule s calls + (after rule s calls).credit ≤
      s.credit + tps * ((after rule s calls).updated - s.updated) := by
  induction calls generalizing s with
  | nil => simp [admitted, after]
  | cons now calls ih =>
    have hrest := @ih (admitCall rule s now).2
    have hcredit := admit_credit rule s now
    have hrefill := refilled_le rule s now
    have hclock : (admitCall rule s now).2.updated = max now s.updated := admit_updated
    have hmono := updated_le_after rule (admitCall rule s now).2 calls
    rw [htps, Option.getD_some] at hrefill
    rw [htps, Option.isSome_some] at hcredit
    show second * ((if _ then 1 else 0) + admitted rule (admitCall rule s now).2 calls) +
        (after rule (admitCall rule s now).2 calls).credit ≤
      s.credit + tps * ((after rule (admitCall rule s now).2 calls).updated - s.updated)
    -- The time that passed is that before this call and that after it.
    have htime : (after rule (admitCall rule s now).2 calls).updated - s.updated =
        ((after rule (admitCall rule s now).2 calls).updated - (admitCall rule s now).2.updated) +
          (now - s.updated) := by
      omega
    rw [htime, Nat.mul_add, Nat.mul_add, Nat.mul_comm tps (now - s.updated)]
    cases hadmits : (admitCall rule s now).1 with
    | false =>
      simp only [hadmits, Bool.false_eq_true, false_and, if_false] at hcredit ⊢
      omega
    | true =>
      simp only [hadmits, and_self, if_true] at hcredit ⊢
      omega

theorem admitted_le {tps : Nat} (hsound : Sound rule s) (htps : rule.tps = some tps)
    (calls : List Nat) :
    admitted rule s calls ≤
      rule.burst + tps * ((after rule s calls).updated - s.updated) / second := by
  have hconserved := admitted_add_credit_le (s := s) htps calls
  have hcredit := hsound.credit
  generalize tps * ((after rule s calls).updated - s.updated) = refill at *
  unfold second at *
  omega

/-! ## Windows -/

/-- Without a reset the count of a window grows with each admitted call. -/
theorem window_after (hlimit : rule.limits[k]? = some limit) (calls : List Nat)
    (hwindow : s.windows[k]? = some window)
    (hopen : ∀ before now rest, calls = before ++ now :: rest →
      ¬ Resets rule (after rule s before) now k) :
    (after rule s calls).windows[k]? = some (window.1, window.2 + admitted rule s calls) := by
  induction calls generalizing s window with
  | nil => exact hwindow
  | cons now calls ih =>
    have hkeeps : renewed now limit window = window := by
      have hnot : ¬ Resets rule s now k := hopen [] now calls rfl
      unfold renewed
      rw [if_neg]
      intro hexpired
      exact hnot ⟨limit, window, hlimit, hwindow, hexpired⟩
    have hnext := admit_window now hlimit hwindow
    rw [hkeeps] at hnext
    have hrest := ih hnext fun before later rest hsplit =>
      hopen (now :: before) later rest (congrArg (now :: ·) hsplit)
    show (after rule (admitCall rule s now).2 calls).windows[k]? = _
    rw [hrest, Nat.add_assoc]
    rfl

/-- The first call may open the window anew; it counts like the others. -/
theorem admitted_le_requests (hsound : Sound rule s) (hlimit : rule.limits[k]? = some limit)
    (calls : List Nat)
    (hopen : ∀ before now rest, calls = before ++ now :: rest → before ≠ [] →
      ¬ Resets rule (after rule s before) now k) :
    admitted rule s calls ≤ limit.requests := by
  cases calls with
  | nil => exact Nat.zero_le _
  | cons now calls =>
    obtain ⟨window, hwindow⟩ := hsound.exists_window hlimit
    have hafter := window_after hlimit calls (admit_window now hlimit hwindow)
      fun before later rest hsplit =>
        hopen (now :: before) later rest (congrArg (now :: ·) hsplit) (List.cons_ne_nil _ _)
    have hle := (hsound.after (now :: calls)).used k limit _ hlimit hafter
    rw [Nat.add_assoc] at hle
    exact Nat.le_trans (Nat.le_add_left _ _) hle

/-- The start of a window only moves forward. -/
theorem start_le_after (hlimit : rule.limits[k]? = some limit) (calls : List Nat)
    (hwindow : s.windows[k]? = some window) :
    ∃ later, (after rule s calls).windows[k]? = some later ∧ window.1 ≤ later.1 := by
  induction calls generalizing s window with
  | nil => exact ⟨window, hwindow, Nat.le_refl _⟩
  | cons now calls ih =>
    obtain ⟨later, hlater, hle⟩ := ih (admit_window now hlimit hwindow)
    refine ⟨later, hlater, Nat.le_trans ?_ hle⟩
    show window.1 ≤ (renewed now limit window).1
    unfold renewed
    split
    · exact Nat.le_max_right _ _
    · exact Nat.le_refl _

/-- A reset makes its instant the start, and the next one is a window later. -/
theorem resets_apart {now' : Nat} (hvalid : limit.valid = true)
    (hlimit : rule.limits[k]? = some limit) (calls : List Nat) (hfirst : Resets rule s now k)
    (hsecond : Resets rule (after rule s (now :: calls)) now' k) :
    now + limit.windowSeconds * second ≤ now' := by
  obtain ⟨_, window, hlimit', hwindow, hexpired⟩ := hfirst
  obtain rfl := Option.some.inj (hlimit.symm.trans hlimit')
  obtain ⟨_, window', hlimit'', hwindow', hexpired'⟩ := hsecond
  obtain rfl := Option.some.inj (hlimit.symm.trans hlimit'')
  have hstart := admit_window now hlimit hwindow
  obtain ⟨later, hlater, hle⟩ := start_le_after hlimit calls hstart
  obtain rfl : later = window' := Option.some.inj (hlater.symm.trans hwindow')
  have hnow : now ≤ (renewed now limit window).1 := by
    unfold renewed
    rw [if_pos hexpired]
    exact Nat.le_max_left _ _
  have hpos : 1 ≤ limit.windowSeconds := by
    unfold Window.valid at hvalid
    simp only [Bool.and_eq_true, decide_eq_true_eq] at hvalid
    exact hvalid.2.1
  have hlong : limit.windowSeconds * second ≤ now' - later.1 := by
    unfold expired at hexpired'
    rw [decide_eq_true_eq, Nat.le_div_iff_mul_le (by decide)] at hexpired'
    exact hexpired'
  unfold second at *
  omega

/-! ## The bound -/

/-- What the calls at these instants can do to a bucket. -/
structure Bounded (rule : Rule) (s : State) (calls : List Nat) : Prop where
  /-- The clock is the largest instant seen, so it never goes back. -/
  clock : (after rule s calls).updated = calls.foldl max s.updated
  tokens : ∀ tps, rule.tps = some tps →
    admitted rule s calls ≤
      rule.burst + tps * ((after rule s calls).updated - s.updated) / second
  /-- A window admits at most its requests until it is reset, the call that opened it
      included. -/
  windows : ∀ (k : Nat) (limit : Window), rule.limits[k]? = some limit →
    (∀ before now rest, calls = before ++ now :: rest → before ≠ [] →
      ¬ Resets rule (after rule s before) now k) →
    admitted rule s calls ≤ limit.requests
  resets : ∀ (k : Nat) (limit : Window) (first second' : Nat) (before between : List Nat),
    rule.limits[k]? = some limit → before ++ first :: between ++ [second'] <+: calls →
    Resets rule (after rule s before) first k →
    Resets rule (after rule s (before ++ first :: between)) second' k →
    first + limit.windowSeconds * second ≤ second'
  /-- A refused call leaves the refilled credit and every count, but for windows that
      have run out. -/
  refused : ∀ now, (admitCall rule s now).1 = false →
    (admitCall rule s now).2.credit = refilled rule s now ∧
    ∀ (k : Nat) (limit : Window) (window : Nat × Nat), rule.limits[k]? = some limit →
      s.windows[k]? = some window →
      (expired limit now window = false → (admitCall rule s now).2.windows[k]? = some window) ∧
      (expired limit now window = true →
        (admitCall rule s now).2.windows[k]? = some (max now window.1, 0))

theorem refused_windows (hrefused : (admitCall rule s now).1 = false)
    (hlimit : rule.limits[k]? = some limit) (hwindow : s.windows[k]? = some window) :
    (admitCall rule s now).2.windows[k]? = some (renewed now limit window) := by
  rw [admit_window now hlimit hwindow, hrefused]
  rfl

theorem bounded_of_sound (hsound : Sound rule s)
    (hvalid : ∀ limit ∈ rule.limits, limit.valid = true) (calls : List Nat) :
    Bounded rule s calls where
  clock := after_updated calls
  tokens _ htps := admitted_le hsound htps calls
  windows _ _ hlimit hopen := admitted_le_requests hsound hlimit calls hopen
  resets k limit first second' before between hlimit _ hfirst hsecond := by
    rw [after_append] at hsecond
    exact resets_apart (hvalid limit (List.mem_of_getElem? hlimit)) hlimit between hfirst hsecond
  refused now hrefused := by
    constructor
    · have hcredit := admit_credit rule s now
      simpa [hrefused] using hcredit
    · intro k limit window hlimit hwindow
      rw [refused_windows hrefused hlimit hwindow]
      unfold renewed
      constructor
      · intro hopen
        rw [if_neg (by simp [hopen])]
      · intro hexpired
        rw [if_pos hexpired]

/-- **The rate-limit bound.** For every rule of a validated list, from the creation of
    its bucket and from every later point on, for calls at arbitrary instants. -/
theorem rate_limit_bound (rules : List Rule) (hvalid : validate rules = .ok ()) (rule : Rule)
    (hrule : rule ∈ rules) (created : Nat) (before calls : List Nat) :
    (State.new rule created).updated = created ∧
      Bounded rule (after rule (State.new rule created) before) calls :=
  ⟨rfl, bounded_of_sound ((sound_new rule created).after before)
    (window_valid_of_validate hvalid rule hrule) calls⟩

/-- One request in ten seconds, and five in one second. -/
def twoWindows : Rule :=
  ⟨Bytes.ascii "/login", false, [], some 2, 3, [⟨1, 10⟩, ⟨5, 1⟩]⟩

theorem rate_limit_bound_twoWindows :
    validate [twoWindows] = .ok () ∧
      admitted twoWindows (State.new twoWindows 0) [0, 7, 3, 9 * second, 10 * second] ≤ 3 + 20 := by
  have hvalid : validate [twoWindows] = .ok () := by decide +kernel
  obtain ⟨-, hbounded⟩ := rate_limit_bound [twoWindows] hvalid twoWindows List.mem_cons_self 0 []
    [0, 7, 3, 9 * second, 10 * second]
  exact ⟨hvalid, hbounded.tokens 2 rfl⟩

/-- The count of a window changes in a refused call when the window has run out: the
    long window refuses, the short one starts again. -/
theorem refusal_resets_expired_window :
    validate [twoWindows] = .ok () ∧
      (admitCall twoWindows (after twoWindows (State.new twoWindows 0) [0]) (2 * second)).1 = false ∧
      (after twoWindows (State.new twoWindows 0) [0]).windows[1]? = some (0, 1) ∧
      (admitCall twoWindows (after twoWindows (State.new twoWindows 0) [0]) (2 * second)).2.windows[1]? =
        some (2 * second, 0) := by
  decide +kernel

end PathRateLimits
