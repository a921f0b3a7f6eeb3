import Hangang.Framework.Machine
import Mathlib.Data.List.Infix

/-! # Health of TCP Backends

    The model of one node of `tcp_health.rs`. Probes and epoch observations change
    the streaks of the node under its lock and publish them as a byte of flags;
    `available_for` takes no lock and brackets its load of the flags with two loads
    of the epoch. Every load and store of an atomic is a step of its own here.

    A replacement stores the flags of the new epoch before the epoch itself. Under
    the checking policy these flags are closed, and the two loads of the epoch shut
    every later opening out. Under the healthy policy they are open, and a reader
    between the two stores takes them for those of the old epoch.

    * **Published**: outside a replacement the flags are what the probe results of
      the published epoch, and of no other, make of them.
    * **Exactness**: with no load of the flags between the two stores of a
      replacement, the answer yes is right at some instant of the call. -/

namespace TcpHealth

/-! ## Streaks -/

inductive InitialHealthState where
  | healthy
  | checking
deriving DecidableEq

structure TcpHealthPolicy where
  healthySuccesses : Nat
  unhealthyFailures : Nat
  initialState : InitialHealthState

/-- The part of `Streaks` that an epoch starts anew. -/
structure Health where
  successes : Nat
  failures : Nat
  unhealthy : Bool
  initialCheckPending : Bool
  probeObserved : Bool
deriving DecidableEq

structure Streaks extends Health where
  epoch : Nat

variable (policy : TcpHealthPolicy)

/-- What `ensure_epoch` resets the streaks to, and `Node::new` starts them with. -/
def Health.fresh : Health :=
  ⟨0, 0, false, policy.initialState == .checking, false⟩

/-- The body of `record_success_for`. -/
def Health.success (h : Health) : Health :=
  let h := { h with
    probeObserved := true
    failures := 0
    successes := min (h.successes + 1) policy.healthySuccesses }
  if policy.healthySuccesses ≤ h.successes then
    { h with unhealthy := false, initialCheckPending := false } else h

/-- `record_failure_locked`. -/
def Health.failure (h : Health) : Health :=
  let h := { h with
    probeObserved := true
    successes := 0
    failures := min (h.failures + 1) policy.unhealthyFailures }
  if policy.unhealthyFailures ≤ h.failures then { h with unhealthy := true } else h

def Health.record (h : Health) (success : Bool) : Health :=
  if success then h.success policy else h.failure policy

def Health.available (h : Health) : Bool := !h.unhealthy && !h.initialCheckPending

/-- The flags that `publish` stores: `AVAILABLE`, `PROBE_OBSERVED`,
    `INITIAL_CHECK_PENDING`. -/
def Health.flags (h : Health) : UInt8 :=
  (if h.available then 1 else 0) ||| (if h.probeObserved then 2 else 0) |||
    (if h.initialCheckPending then 4 else 0)

theorem flags_available (h : Health) : (h.flags &&& 1 != 0) = h.available := by
  unfold Health.flags
  cases h.available <;> cases h.probeObserved <;> cases h.initialCheckPending <;> decide

/-- The health that the results of an epoch give the node. -/
def own (results : List (Nat × Bool)) (epoch : Nat) : Health :=
  ((results.filter (·.1 == epoch)).map Prod.snd).foldl (Health.record policy) (Health.fresh policy)

theorem own_snoc (results : List (Nat × Bool)) (epoch : Nat) (success : Bool) :
    own policy (results ++ [(epoch, success)]) epoch =
      (own policy results epoch).record policy success := by
  simp [own]

theorem own_of_lt {results : List (Nat × Bool)} {epoch : Nat} (h : ∀ p ∈ results, p.1 < epoch) :
    own policy results epoch = Health.fresh policy := by
  have hnone : results.filter (·.1 == epoch) = [] := by
    apply List.filter_eq_nil_iff.mpr
    intro p hp
    simpa using Nat.ne_of_lt (h p hp)
  rw [own, hnone]
  rfl

/-! ## The machine -/

/-- What is asked of the node under the lock: `observe_epoch`, `record_success_for` or
    `record_failure_for`, and `record_failure_current`. -/
inductive Op where
  | observe (epoch : Nat)
  | result (epoch : Nat) (success : Bool)
  | failureCurrent

/-- The store the holder of the lock makes next: the flags of a new epoch, the new epoch, or
    the flags behind a result. A replacement goes on with the result it came with. -/
inductive Critical where
  | resetting (next : Option Bool)
  | advancing (next : Option Bool)
  | recording (success : Bool)
deriving DecidableEq

/-- Where a call of `available_for` is. -/
inductive Call where
  | idle
  | matched (epoch : Nat)
  | opened (epoch : Nat)
  | returned (result : Bool)
deriving DecidableEq

variable {Reader : Type}

/-- The atomics, the streaks with their lock, the readers, and the results recorded so far. -/
structure State (Reader : Type) where
  flags : UInt8
  epoch : Nat
  streaks : Streaks
  lock : Option Critical
  calls : Reader → Call
  results : List (Nat × Bool)

inductive Label (Reader : Type) where
  | enter (op : Op)
  | storeReset
  | storeEpoch
  | storeResult
  | loadEpoch (reader : Reader) (epoch : Nat)
  | loadFlags (reader : Reader)
  | loadAgain (reader : Reader)

def State.initial : State Reader where
  flags := (Health.fresh policy).flags
  epoch := 0
  streaks := ⟨Health.fresh policy, 0⟩
  lock := none
  calls _ := .idle
  results := []

/-- Behind `ensure_epoch`: an observation is done, a result is counted. -/
def State.proceed (s : State Reader) : Option Bool → State Reader
  | none => { s with lock := none }
  | some success =>
    { s with
      streaks := ⟨s.streaks.toHealth.record policy success, s.streaks.epoch⟩
      lock := some (.recording success) }

/-- `ensure_epoch` up to its first store. -/
def State.ensureEpoch (s : State Reader) (epoch : Nat) (next : Option Bool) : State Reader :=
  if epoch < s.streaks.epoch then s
  else if s.streaks.epoch < epoch then
    { s with streaks := ⟨Health.fresh policy, epoch⟩, lock := some (.resetting next) }
  else s.proceed policy next

def State.enter (s : State Reader) : Op → State Reader
  | .observe epoch => s.ensureEpoch policy epoch none
  | .result epoch success => s.ensureEpoch policy epoch (some success)
  | .failureCurrent => s.proceed policy (some false)

variable [DecidableEq Reader]

def State.setCall (s : State Reader) (reader : Reader) (call : Call) : State Reader :=
  { s with calls := fun r => if r = reader then call else s.calls r }

/-- One load or store, or the start of a critical section. -/
def step (s : State Reader) : Label Reader → Option (State Reader)
  | .enter op => if s.lock = none then some (s.enter policy op) else none
  | .storeReset =>
    match s.lock with
    | some (.resetting next) =>
      some { s with flags := s.streaks.flags, lock := some (.advancing next) }
    | _ => none
  | .storeEpoch =>
    match s.lock with
    | some (.advancing next) => some ({ s with epoch := s.streaks.epoch }.proceed policy next)
    | _ => none
  | .storeResult =>
    match s.lock with
    | some (.recording success) =>
      some { s with
        flags := s.streaks.flags
        lock := none
        results := s.results ++ [(s.streaks.epoch, success)] }
    | _ => none
  | .loadEpoch reader epoch =>
    some (s.setCall reader (if s.epoch = epoch then .matched epoch else .returned false))
  | .loadFlags reader =>
    match s.calls reader with
    | .matched epoch =>
      some (s.setCall reader (if s.flags &&& 1 != 0 then .opened epoch else .returned false))
    | _ => none
  | .loadAgain reader =>
    match s.calls reader with
    | .opened epoch => some (s.setCall reader (.returned (s.epoch == epoch)))
    | _ => none

def machine : Machine (State Reader) (Label Reader) := ⟨step policy⟩

/-- The flags of the new epoch are stored and the epoch is not. -/
def State.replacing (s : State Reader) : Bool :=
  match s.lock with
  | some (.advancing _) => true
  | _ => false

/-- A step other than a load of the flags between the two stores of a replacement that opens
    the node. -/
def quiet (s : State Reader) : Label Reader → Bool
  | .loadFlags _ => policy.initialState == .checking || !s.replacing
  | _ => true

/-- The machine whose steps are all quiet. -/
def quietMachine : Machine (State Reader) (Label Reader) :=
  (machine policy).restrict fun s l => quiet policy s l = true

/-- The node is at the epoch, and the results of the epoch make it available. -/
def State.AvailableAt (s : State Reader) (epoch : Nat) : Prop :=
  s.epoch = epoch ∧ (own policy s.results epoch).available = true

/-! ## What is published -/

/-- The state of the node between the stores of a critical section. -/
def LockInv (s : State Reader) : Option Critical → Prop
  | none => s.streaks = ⟨own policy s.results s.epoch, s.epoch⟩ ∧
      s.flags = (own policy s.results s.epoch).flags
  | some (.resetting _) => s.streaks.toHealth = Health.fresh policy ∧ s.epoch < s.streaks.epoch ∧
      s.flags = (own policy s.results s.epoch).flags
  | some (.advancing _) => s.streaks.toHealth = Health.fresh policy ∧ s.epoch < s.streaks.epoch ∧
      s.flags = (Health.fresh policy).flags
  | some (.recording success) =>
      s.streaks = ⟨(own policy s.results s.epoch).record policy success, s.epoch⟩ ∧
        s.flags = (own policy s.results s.epoch).flags

structure Inv (s : State Reader) : Prop where
  results : ∀ p ∈ s.results, p.1 ≤ s.epoch
  lock : LockInv policy s s.lock

variable {policy} {s s' : State Reader} {l : Label Reader}

omit [DecidableEq Reader] in
theorem inv_initial : Inv policy (State.initial policy : State Reader) :=
  ⟨by simp [State.initial], rfl, rfl⟩

omit [DecidableEq Reader] in
theorem inv_proceed (hresults : ∀ p ∈ s.results, p.1 ≤ s.epoch)
    (hstreaks : s.streaks = ⟨own policy s.results s.epoch, s.epoch⟩)
    (hflags : s.flags = (own policy s.results s.epoch).flags) (next : Option Bool) :
    Inv policy (s.proceed policy next) := by
  cases next with
  | none => exact ⟨hresults, hstreaks, hflags⟩
  | some success =>
    refine ⟨hresults, ?_, hflags⟩
    show Streaks.mk (s.streaks.toHealth.record policy success) s.streaks.epoch = _
    rw [hstreaks]
    rfl

omit [DecidableEq Reader] in
theorem inv_enter (hinv : Inv policy s) (hlock : s.lock = none) (op : Op) :
    Inv policy (s.enter policy op) := by
  have hnode := hinv.lock
  rw [hlock] at hnode
  have hensure : ∀ epoch next, Inv policy (s.ensureEpoch policy epoch next) := by
    intro epoch next
    unfold State.ensureEpoch
    split
    · exact hinv
    · split
      · next hlt =>
        rw [hnode.1] at hlt
        exact ⟨hinv.results, rfl, hlt, hnode.2⟩
      · exact inv_proceed hinv.results hnode.1 hnode.2 next
  cases op with
  | observe epoch => exact hensure epoch none
  | result epoch success => exact hensure epoch (some success)
  | failureCurrent => exact inv_proceed hinv.results hnode.1 hnode.2 (some false)

omit [DecidableEq Reader] in
/-- The start of a critical section stores nothing and moves no reader. -/
theorem enter_frame (s : State Reader) (op : Op) :
    (s.enter policy op).epoch = s.epoch ∧ (s.enter policy op).calls = s.calls := by
  have hproceed : ∀ next, (s.proceed policy next).epoch = s.epoch ∧
      (s.proceed policy next).calls = s.calls := by
    intro next
    cases next <;> exact ⟨rfl, rfl⟩
  have hensure : ∀ epoch next, (s.ensureEpoch policy epoch next).epoch = s.epoch ∧
      (s.ensureEpoch policy epoch next).calls = s.calls := by
    intro epoch next
    unfold State.ensureEpoch
    split
    · exact ⟨rfl, rfl⟩
    · split
      · exact ⟨rfl, rfl⟩
      · exact hproceed next
  cases op with
  | observe epoch => exact hensure epoch none
  | result epoch success => exact hensure epoch (some success)
  | failureCurrent => exact hproceed (some false)

/-- A step keeps the invariant, and the epoch does not fall. -/
theorem inv_step (hinv : Inv policy s) (h : step policy s l = some s') :
    Inv policy s' ∧ s.epoch ≤ s'.epoch := by
  have hnode := hinv.lock
  cases l with
  | enter op =>
    obtain ⟨hlock, h⟩ := Option.ite_none_right_eq_some.mp h
    rw [← Option.some.inj h]
    refine ⟨inv_enter hinv hlock op, ?_⟩
    exact Nat.le_of_eq (enter_frame s op).1.symm
  | storeReset =>
    simp only [step] at h
    split at h
    · next next hlock =>
      rw [hlock] at hnode
      rw [← Option.some.inj h]
      refine ⟨⟨hinv.results, hnode.1, hnode.2.1, ?_⟩, Nat.le_refl _⟩
      exact congrArg Health.flags hnode.1
    · cases h
  | storeEpoch =>
    simp only [step] at h
    split at h
    · next next hlock =>
      rw [hlock] at hnode
      obtain ⟨hfresh, hlt, hflags⟩ := hnode
      -- no result of the new epoch has been recorded yet
      have hown : own policy s.results s.streaks.epoch = Health.fresh policy :=
        own_of_lt policy fun p hp => Nat.lt_of_le_of_lt (hinv.results p hp) hlt
      rw [← Option.some.inj h]
      constructor
      · apply inv_proceed
        · exact fun p hp => Nat.le_trans (hinv.results p hp) (Nat.le_of_lt hlt)
        · show s.streaks = ⟨own policy s.results s.streaks.epoch, s.streaks.epoch⟩
          rw [hown, ← hfresh]
        · show s.flags = (own policy s.results s.streaks.epoch).flags
          rw [hown, hflags]
      · cases next <;> exact Nat.le_of_lt hlt
    · cases h
  | storeResult =>
    simp only [step] at h
    split at h
    · next success hlock =>
      rw [hlock] at hnode
      obtain ⟨hstreaks, hflags⟩ := hnode
      have hepoch : s.streaks.epoch = s.epoch := by rw [hstreaks]
      have hown := own_snoc policy s.results s.epoch success
      rw [← Option.some.inj h, hepoch]
      refine ⟨⟨?_, ?_, ?_⟩, Nat.le_refl _⟩
      · intro p hp
        rcases List.mem_append.mp hp with hp | hp
        · exact hinv.results p hp
        · simp [List.mem_singleton.mp hp]
      · show s.streaks = ⟨own policy (s.results ++ [(s.epoch, success)]) s.epoch, s.epoch⟩
        rw [hown, hstreaks]
      · show s.streaks.flags = (own policy (s.results ++ [(s.epoch, success)]) s.epoch).flags
        rw [hown, hstreaks]
    · cases h
  | loadEpoch reader epoch =>
    rw [← Option.some.inj h]
    exact ⟨⟨hinv.results, hnode⟩, Nat.le_refl _⟩
  | loadFlags reader =>
    simp only [step] at h
    split at h
    · rw [← Option.some.inj h]
      exact ⟨⟨hinv.results, hnode⟩, Nat.le_refl _⟩
    · cases h
  | loadAgain reader =>
    simp only [step] at h
    split at h
    · rw [← Option.some.inj h]
      exact ⟨⟨hinv.results, hnode⟩, Nat.le_refl _⟩
    · cases h

omit [DecidableEq Reader] in
/-- Flags that are open, outside the gap of an opening replacement, are those of the published
    epoch. -/
theorem available_of_flags (hinv : Inv policy s)
    (hquiet : policy.initialState = .checking ∨ s.replacing = false)
    (hflags : (s.flags &&& 1 != 0) = true) : (own policy s.results s.epoch).available = true := by
  have hnode := hinv.lock
  unfold State.replacing at hquiet
  rcases hlock : s.lock with _ | next | next | success <;> rw [hlock] at hnode hquiet
  · rwa [hnode.2, flags_available] at hflags
  · rwa [hnode.2.2, flags_available] at hflags
  · -- a checking replacement has closed the flags
    have hchecking : policy.initialState = .checking := by simpa using hquiet
    rw [hnode.2.2, flags_available] at hflags
    simp [Health.fresh, Health.available, hchecking] at hflags
  · rwa [hnode.2, flags_available] at hflags

/-! ## Readers -/

/-- The reader whose load a step is. -/
def Label.reader? : Label Reader → Option Reader
  | .loadEpoch reader _ | .loadFlags reader | .loadAgain reader => some reader
  | _ => none

theorem calls_of_step {reader : Reader} (h : step policy s l = some s')
    (hl : l.reader? ≠ some reader) : s'.calls reader = s.calls reader := by
  have hset : ∀ r call, r ≠ reader → (s.setCall r call).calls reader = s.calls reader := by
    intro r call hr
    simp [State.setCall, Ne.symm hr]
  cases l with
  | enter op =>
    obtain ⟨-, h⟩ := Option.ite_none_right_eq_some.mp h
    rw [← Option.some.inj h, (enter_frame s op).2]
  | loadEpoch r epoch =>
    rw [← Option.some.inj h]
    exact hset r _ (by simpa [Label.reader?] using hl)
  | storeEpoch =>
    simp only [step] at h
    split at h
    · next next _ =>
      rw [← Option.some.inj h]
      cases next <;> rfl
    · cases h
  | loadFlags r =>
    simp only [step] at h
    split at h
    · rw [← Option.some.inj h]
      exact hset r _ (by simpa [Label.reader?] using hl)
    · cases h
  | loadAgain r =>
    simp only [step] at h
    split at h
    · rw [← Option.some.inj h]
      exact hset r _ (by simpa [Label.reader?] using hl)
    · cases h
  | storeReset | storeResult =>
    simp only [step] at h
    split at h
    · rw [← Option.some.inj h]
    · cases h

/-- At some instant of the labels `d` behind `s₁`, the node was at an epoch between the two
    bounds and its own results made it available. -/
def OpenBetween (policy : TcpHealthPolicy) (s₁ : State Reader) (d : List (Label Reader))
    (low high : Nat) : Prop :=
  ∃ d' t, d' <+: d ∧ (quietMachine policy).run s₁ d' = some t ∧ low ≤ t.epoch ∧ t.epoch ≤ high ∧
    (own policy t.results t.epoch).available = true

theorem OpenBetween.mono {s₁ : State Reader} {d d' : List (Label Reader)} {low high high' : Nat}
    (h : OpenBetween policy s₁ d low high) (hd : d <+: d') (hhigh : high ≤ high') :
    OpenBetween policy s₁ d' low high' := by
  obtain ⟨e, t, he, hrun, hlow, hle, havailable⟩ := h
  exact ⟨e, t, he.trans hd, hrun, hlow, Nat.le_trans hle hhigh, havailable⟩

/-- What a call for `epoch` has seen, by its place. -/
def Seen (policy : TcpHealthPolicy) (s₁ : State Reader) (epoch : Nat) (d : List (Label Reader))
    (s : State Reader) : Call → Prop
  | .matched e => e = epoch ∧ epoch ≤ s.epoch
  | .opened e => e = epoch ∧ OpenBetween policy s₁ d epoch s.epoch
  | .returned true => OpenBetween policy s₁ d epoch epoch
  | _ => True

theorem Seen.mono {s₁ : State Reader} {epoch : Nat} {d d' : List (Label Reader)} {call : Call}
    (h : Seen policy s₁ epoch d s call) (hd : d <+: d') (hepoch : s.epoch ≤ s'.epoch) :
    Seen policy s₁ epoch d' s' call := by
  cases call with
  | idle => trivial
  | matched e => exact ⟨h.1, Nat.le_trans h.2 hepoch⟩
  | opened e => exact ⟨h.1, h.2.mono hd hepoch⟩
  | returned result =>
    cases result with
    | true => exact OpenBetween.mono h hd (Nat.le_refl _)
    | false => trivial

/-- **The bracket**: the load of the flags finds those of an epoch from the first load on, and
    the last load bounds it from above. -/
theorem seen_step {s₁ : State Reader} {reader : Reader} {epoch : Nat} {d : List (Label Reader)}
    (hrun : (quietMachine policy).run s₁ d = some s) (hinv : Inv policy s)
    (hseen : Seen policy s₁ epoch d s (s.calls reader)) (hl : ∀ e, l ≠ .loadEpoch reader e)
    (h : (quietMachine policy).step s l = some s') :
    Seen policy s₁ epoch (d ++ [l]) s' (s'.calls reader) := by
  obtain ⟨hquiet, h⟩ := Machine.restrict_step_eq_some.mp h
  have hd : d <+: d ++ [l] := List.prefix_append d [l]
  -- a step of the reader itself, or of somebody else
  by_cases hreader : l.reader? = some reader
  · cases l with
    | loadEpoch r e =>
      obtain rfl : r = reader := by simpa [Label.reader?] using hreader
      exact absurd rfl (hl e)
    | loadFlags r =>
      obtain rfl : r = reader := by simpa [Label.reader?] using hreader
      have h : step policy s (.loadFlags r) = some s' := h
      simp only [step] at h
      split at h
      · next e hcall =>
        rw [hcall] at hseen
        rw [← Option.some.inj h]
        -- set flags belong to the epoch of this instant, which is the witness
        by_cases hflags : (s.flags &&& 1 != 0) = true
        · have havailable := available_of_flags hinv (by simpa [quiet] using hquiet) hflags
          simp only [State.setCall, hflags, if_true]
          exact ⟨hseen.1, d, s, hd, hrun, hseen.2, Nat.le_refl _, havailable⟩
        · simp [State.setCall, hflags, Seen]
      · cases h
    | loadAgain r =>
      obtain rfl : r = reader := by simpa [Label.reader?] using hreader
      have h : step policy s (.loadAgain r) = some s' := h
      simp only [step] at h
      split at h
      · next e hcall =>
        rw [hcall] at hseen
        obtain ⟨rfl, hseen⟩ := hseen
        rw [← Option.some.inj h]
        -- the last load finds the first epoch again: nothing newer came in between
        by_cases hepoch : s.epoch = e
        · simp only [State.setCall, hepoch, if_true, beq_self_eq_true]
          exact hseen.mono hd (Nat.le_of_eq hepoch)
        · simp [State.setCall, hepoch, Seen]
      · cases h
    | enter | storeReset | storeEpoch | storeResult => simp [Label.reader?] at hreader
  · rw [calls_of_step h hreader]
    exact hseen.mono hd (inv_step hinv h).2

/-- **Epoch-exact availability**, in every run whose loads of the flags are all quiet: if
    `available_for` has returned `true` for an epoch, then at some instant of the call the
    node was at that epoch, and the results of that epoch made it available. -/
theorem available_for_exact {before during : List (Label Reader)} {s₀ : State Reader}
    {reader : Reader} {epoch : Nat}
    (hbefore : (quietMachine policy).run (State.initial policy) before = some s₀)
    (hduring : (quietMachine policy).run s₀ (.loadEpoch reader epoch :: during) = some s)
    (hcall : ∀ e, .loadEpoch reader e ∉ during) (htrue : s.calls reader = .returned true) :
    ∃ d t, d <+: during ∧
      (quietMachine policy).run s₀ (.loadEpoch reader epoch :: d) = some t ∧
      t.AvailableAt policy epoch := by
  have hkeep : ∀ (s : State Reader) l s', Inv policy s → (quietMachine policy).step s l = some s' →
      Inv policy s' := by
    intro s l s' hs h
    exact (inv_step hs (Machine.restrict_step_eq_some.mp h).2).1
  obtain ⟨s₁, hload, hrun⟩ := (quietMachine policy).run_cons_eq_some.mp hduring
  have hinv₀ : Inv policy s₀ := Machine.run_invariant hkeep inv_initial hbefore
  have hinv₁ : Inv policy s₁ := hkeep s₀ _ s₁ hinv₀ hload
  have hseen₁ : Seen policy s₁ epoch [] s₁ (s₁.calls reader) := by
    obtain ⟨-, hload⟩ := Machine.restrict_step_eq_some.mp hload
    rw [← Option.some.inj hload]
    by_cases hepoch : s₀.epoch = epoch
    · simp [State.setCall, hepoch, Seen]
    · simp [State.setCall, hepoch, Seen]
  -- along the labels of the call: the run so far, the invariant, and what the call has seen
  have hall : ∀ ls s, (quietMachine policy).run s₁ ls = some s →
      (∀ e, .loadEpoch reader e ∉ ls) → Seen policy s₁ epoch ls s (s.calls reader) := by
    intro ls s hls hnone
    induction ls using List.reverseRecOn generalizing s with
    | nil =>
      rw [← Option.some.inj hls]
      exact hseen₁
    | append_singleton ls l ih =>
      obtain ⟨t, ht, hstep⟩ := (quietMachine policy).run_snoc_eq_some.mp hls
      have hseen := ih t ht fun e hmem => hnone e (by simp [hmem])
      refine seen_step ht (Machine.run_invariant hkeep hinv₁ ht) hseen ?_ hstep
      intro e hl
      exact hnone e (by simp [hl])
  have hfinal := hall during s hrun hcall
  rw [htrue] at hfinal
  obtain ⟨d, t, hd, ht, hlow, hhigh, havailable⟩ := hfinal
  have hepoch : t.epoch = epoch := Nat.le_antisymm hhigh hlow
  refine ⟨d, t, hd, (quietMachine policy).run_cons_eq_some.mpr ⟨s₁, hload, ht⟩, hepoch, ?_⟩
  rwa [hepoch] at havailable

/-- Nodes that one failed probe closes and that open with a new epoch. -/
def opening : TcpHealthPolicy := ⟨1, 1, .healthy⟩

/-- A new endpoint whose first probe is good. -/
theorem available_for_exact_probed :
    ∃ s₀ : State Unit, (quietMachine opening).run (State.initial opening)
        [.enter (.result 3 true), .storeReset, .storeEpoch, .storeResult] = some s₀ ∧
      ∃ d t, d <+: [.loadFlags (), .loadAgain ()] ∧
        (quietMachine opening).run s₀ (.loadEpoch () 3 :: d) = some t ∧
        t.AvailableAt opening 3 :=
  ⟨_, rfl, @available_for_exact _ _ _ _ [.enter (.result 3 true), .storeReset, .storeEpoch,
    .storeResult] [.loadFlags (), .loadAgain ()] _ () 3 rfl rfl (by simp) rfl⟩

/-- **A closed epoch answers yes**: its failed probe has closed epoch 0. While epoch 1 is being
    observed, its flags are stored and its number is not, and a call for epoch 0 that runs in
    between returns `true`. -/
theorem available_for_during_replacement :
    ∃ s₀ s : State Unit, (machine opening).run (State.initial opening)
        [.enter (.result 0 false), .storeResult, .enter (.observe 1), .storeReset] = some s₀ ∧
      (machine opening).run s₀ [.loadEpoch () 0, .loadFlags (), .loadAgain ()] = some s ∧
      s.calls () = .returned true ∧
      ∀ d t, d <+: [.loadFlags (), .loadAgain ()] →
        (machine opening).run s₀ (.loadEpoch () 0 :: d) = some t → ¬t.AvailableAt opening 0 := by
  refine ⟨_, _, rfl, rfl, rfl, ?_⟩
  intro d t hd hrun
  have hd : d = [] ∨ d = [.loadFlags ()] ∨ d = [.loadFlags (), .loadAgain ()] := by
    simpa [← List.mem_inits] using hd
  -- the loads record nothing, so the failed probe is all there is at each of the instants
  have hresults : t.results = [(0, false)] := by
    rcases hd with rfl | rfl | rfl <;> rw [← Option.some.inj hrun] <;> rfl
  rintro ⟨-, havailable⟩
  rw [hresults] at havailable
  exact absurd havailable (by decide)

end TcpHealth
