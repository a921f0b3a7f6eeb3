import Hangang.Framework.Threads
import Hangang.MemberAdmission
import Mathlib.Data.Nat.Bitwise

/-! # One Admission Gate

    The operations of a gate, called by any number of threads. `activate` and
    `retire` are one atomic instruction each. `acquire` and `release` are
    `fetch_update` loops: a load, then weak compare-and-exchange attempts, each
    with the value that the attempt before it saw. A lease is a value without
    `Clone` whose `Drop` releases it, so a thread releases what it acquired.

    * **The word**: `Encodes` says which flags and which count a word stands for.
    * **One instruction**: `Effect` says what it can do.
    * **Every interleaving**: the flags are those of the calls that returned, the
      count is the number of leases. -/

namespace MemberAdmission

/-! ## The word -/

/-- The flags and the number of leases that a word stands for. -/
structure Encodes (word : UInt64) (retired pending : Bool) (leases : Nat) : Prop where
  bounded : leases < 2 ^ 62
  value : word.toNat = retired.toNat * 2 ^ 63 + pending.toNat * 2 ^ 62 + leases

theorem toNat_retiredFlag : retiredFlag.toNat = 2 ^ 63 := rfl

theorem toNat_pendingFlag : pendingFlag.toNat = 2 ^ 62 := rfl

theorem toNat_active (word : UInt64) : (active word).toNat = word.toNat % 2 ^ 62 := by
  unfold active
  rw [UInt64.toNat_and]
  exact Nat.and_two_pow_sub_one_eq_mod word.toNat 62

theorem and_flag_eq_zero {flag : UInt64} {i : Nat} (hflag : flag.toNat = 2 ^ i) (word : UInt64) :
    word &&& flag = 0 ↔ word.toNat.testBit i = false := by
  rw [← UInt64.toNat_inj, UInt64.toNat_and, hflag, Nat.and_two_pow]
  cases word.toNat.testBit i <;> simp

theorem and_flags_eq_zero (word : UInt64) :
    word &&& (pendingFlag ||| retiredFlag) = 0 ↔
      word &&& pendingFlag = 0 ∧ word &&& retiredFlag = 0 := by
  simp only [← UInt64.toNat_inj, UInt64.toNat_and, UInt64.toNat_or, Nat.and_or_distrib_left]
  exact Nat.or_eq_zero_iff

namespace Encodes

variable {word next : UInt64} {retired pending : Bool} {leases : Nat}

theorem prepared : Encodes prepared false true 0 := ⟨by decide, rfl⟩

theorem serving : Encodes serving false false 0 := ⟨by decide, rfl⟩

theorem testBit_retired (h : Encodes word retired pending leases) :
    word.toNat.testBit 63 = retired := by
  obtain ⟨hbounded, hvalue⟩ := h
  rw [Nat.testBit_eq_decide_div_mod_eq, hvalue]
  cases retired <;> cases pending <;> simp <;> omega

theorem testBit_pending (h : Encodes word retired pending leases) :
    word.toNat.testBit 62 = pending := by
  obtain ⟨hbounded, hvalue⟩ := h
  rw [Nat.testBit_eq_decide_div_mod_eq, hvalue]
  cases retired <;> cases pending <;> simp <;> omega

theorem active (h : Encodes word retired pending leases) : (active word).toNat = leases := by
  obtain ⟨hbounded, hvalue⟩ := h
  rw [toNat_active]
  cases retired <;> cases pending <;> simp at hvalue <;> omega

theorem flags_eq_zero (h : Encodes word retired pending leases) :
    word &&& (pendingFlag ||| retiredFlag) = 0 ↔ pending = false ∧ retired = false := by
  rw [and_flags_eq_zero, and_flag_eq_zero toNat_pendingFlag, and_flag_eq_zero toNat_retiredFlag,
    h.testBit_pending, h.testBit_retired]

theorem isOpen_iff (h : Encodes word retired pending leases) :
    isOpen word = true ↔ pending = false ∧ retired = false := by
  unfold isOpen
  rw [beq_iff_eq, h.flags_eq_zero]

theorem activate_eq_some (h : Encodes word retired pending leases)
    (hnext : activate word = some next) :
    retired = false ∧ pending = true ∧ leases = 0 ∧ next = MemberAdmission.serving := by
  unfold activate at hnext
  split at hnext
  · next hword =>
    obtain ⟨hbounded, hvalue⟩ := h
    rw [hword, toNat_pendingFlag] at hvalue
    refine ⟨?_, ?_, ?_, (Option.some.inj hnext).symm⟩ <;>
      cases retired <;> cases pending <;> simp at hvalue ⊢ <;> omega
  · cases hnext

theorem retire (h : Encodes word retired pending leases) :
    Encodes (retire word) true pending leases := by
  refine ⟨h.bounded, ?_⟩
  unfold MemberAdmission.retire
  rw [UInt64.toNat_or, toNat_retiredFlag, h.value]
  have hlow : pending.toNat * 2 ^ 62 + leases < 2 ^ 63 := by
    have := h.bounded
    have := pending.toNat_le
    omega
  have hor := Nat.two_pow_add_eq_or_of_lt hlow 1
  rw [Nat.mul_one] at hor
  rw [Nat.add_assoc, Nat.add_assoc, Bool.toNat_true, Nat.one_mul]
  cases retired with
  | false => rw [Bool.toNat_false, Nat.zero_mul, Nat.zero_add, hor, Nat.or_comm]
  | true => rw [Bool.toNat_true, Nat.one_mul, hor, Nat.or_comm, ← Nat.or_assoc, Nat.or_self]

theorem acquire_eq_some (h : Encodes word retired pending leases)
    (hnext : acquire word = some next) :
    retired = false ∧ pending = false ∧ Encodes next false false (leases + 1) := by
  unfold acquire at hnext
  split at hnext
  · next hgate =>
    rw [Bool.and_eq_true, beq_iff_eq, h.flags_eq_zero, decide_eq_true_eq, UInt64.lt_iff_toNat_lt]
      at hgate
    obtain ⟨⟨rfl, rfl⟩, hroom⟩ := hgate
    have hroom : leases < 2 ^ 62 - 1 := h.active ▸ hroom
    have hvalue : word.toNat = leases := by simpa using h.value
    refine ⟨rfl, rfl, by omega, ?_⟩
    rw [← Option.some.inj hnext, UInt64.toNat_add, hvalue]
    simp
    omega
  · cases hnext

/-- A full gate refuses: the count never reaches the flags. -/
theorem acquire_full (h : Encodes word retired pending leases) (hfull : leases = 2 ^ 62 - 1) :
    acquire word = none := by
  unfold acquire
  have hroom : ¬ word &&& countMask < countMask := by
    rw [UInt64.lt_iff_toNat_lt]
    show ¬ (MemberAdmission.active word).toNat < 2 ^ 62 - 1
    rw [h.active]
    omega
  simp [hroom]

theorem release_eq_none (h : Encodes word retired pending leases) :
    release word = none ↔ leases = 0 := by
  unfold release
  have hzero : word &&& countMask = 0 ↔ leases = 0 := by
    rw [← UInt64.toNat_inj, ← h.active]
    rfl
  by_cases hleases : leases = 0
  · simp [hleases, hzero.mpr hleases]
  · simp [hleases, mt hzero.mp hleases]

theorem release_eq_some (h : Encodes word retired pending leases)
    (hnext : release word = some next) : Encodes next retired pending (leases - 1) := by
  have hpos : leases ≠ 0 := by
    intro hzero
    rw [h.release_eq_none.mpr hzero] at hnext
    cases hnext
  have hsub : next = word - 1 := by
    unfold release at hnext
    split at hnext
    · exact (Option.some.inj hnext).symm
    · cases hnext
  have hbounded := h.bounded
  have hvalue := h.value
  have hone : (1 : UInt64) ≤ word := by
    rw [UInt64.le_iff_toNat_le]
    show 1 ≤ word.toNat
    omega
  refine ⟨by omega, ?_⟩
  rw [hsub, UInt64.toNat_sub_of_le _ _ hone]
  show word.toNat - 1 = _
  omega

end Encodes

/-! ## Retirement -/

/-- The flags and the count of any word. -/
theorem encodes_self (word : UInt64) :
    Encodes word (word.toNat.testBit 63) (word.toNat.testBit 62) (word.toNat % 2 ^ 62) := by
  refine ⟨Nat.mod_lt _ (by decide), ?_⟩
  have hlt : word.toNat < 2 ^ 64 := word.toNat_lt
  simp only [Nat.testBit_eq_decide_div_mod_eq]
  by_cases hretired : word.toNat / 2 ^ 63 % 2 = 1 <;>
    by_cases hpending : word.toNat / 2 ^ 62 % 2 = 1 <;>
    simp only [hretired, hpending, decide_true, decide_false, Bool.toNat_true, Bool.toNat_false] <;>
    omega

theorem isOpen_retire (word : UInt64) : isOpen (retire word) = false := by
  have hclosed : ¬ isOpen (retire word) = true := by
    rw [(encodes_self word).retire.isOpen_iff]
    intro h
    exact Bool.noConfusion h.2
  exact Bool.eq_false_of_not_eq_true hclosed

theorem retire_retire (word : UInt64) : retire (retire word) = retire word := by
  unfold retire
  rw [UInt64.or_assoc, UInt64.or_self]

/-! ## The threads -/

/-- The constructor a gate was made with. -/
inductive Birth where
  | prepared
  | serving
  deriving DecidableEq, Repr

def Birth.word : Birth → UInt64
  | .prepared => MemberAdmission.prepared
  | .serving => MemberAdmission.serving

inductive Call where
  | activate
  | retire
  | acquire
  deriving DecidableEq, Repr

/-- What a thread does not decide itself. -/
inductive Choice where
  | go
  /-- the weak compare-and-exchange fails although the word is the expected one -/
  | spurious
  /-- the lease is dropped -/
  | drop
  deriving DecidableEq, Repr

/-- Where a thread is: at an instruction, or with its result. -/
inductive Thread where
  | activate
  | activated (ok : Bool)
  | retire
  | retired
  | acquire
  /-- in the loop of `acquire`, which saw a word -/
  | acquireFrom (seen : UInt64)
  | refused
  | held
  | release
  /-- in the loop of `release`, which saw a word -/
  | releaseFrom (seen : UInt64)
  | released
  /-- `expect("member admission release requires an acquired lease")` -/
  | panicked
  deriving DecidableEq, Repr

namespace Thread

/-- The thread owns a lease. -/
def holds : Thread → Bool
  | held | release | releaseFrom _ => true
  | _ => false

/-- The acquire of the thread succeeded, now or earlier. -/
def obtained : Thread → Bool
  | held | release | releaseFrom _ | released | panicked => true
  | _ => false

/-- Threads whose state says something about the word, or that failed. -/
def marked : Thread → Bool
  | activated true | retired | releaseFrom _ | panicked => true
  | _ => false

theorem obtained_of_holds {th : Thread} (h : th.holds = true) : th.obtained = true := by
  cases th <;> first | rfl | cases h

end Thread

def startCall : Call → Thread
  | .activate => .activate
  | .retire => .retire
  | .acquire => .acquire

/-- One attempt of `fetch_update(f)` with the word that was seen last. -/
def attempt (f : UInt64 → Option UInt64) (again : UInt64 → Thread) (done failed : Thread)
    (word seen : UInt64) (spurious : Bool) : UInt64 × Thread :=
  match f seen with
  | none => (word, failed)
  | some next => if word = seen ∧ spurious = false then (next, done) else (word, again word)

def advance (word : UInt64) : Thread → Choice → Option (UInt64 × Thread)
  | .activate, .go =>
    match activate word with
    | some next => some (next, .activated true)
    | none => some (word, .activated false)
  | .retire, .go => some (retire word, .retired)
  | .acquire, .go => some (word, .acquireFrom word)
  | .acquireFrom seen, .go => some (attempt acquire .acquireFrom .held .refused word seen false)
  | .acquireFrom seen, .spurious =>
    some (attempt acquire .acquireFrom .held .refused word seen true)
  | .held, .drop => some (word, .release)
  | .release, .go => some (word, .releaseFrom word)
  | .releaseFrom seen, .go =>
    some (attempt release .releaseFrom .released .panicked word seen false)
  | .releaseFrom seen, .spurious =>
    some (attempt release .releaseFrom .released .panicked word seen true)
  | _, _ => none

def gate : Program UInt64 Thread Call Choice Empty where
  start call := some (startCall call)
  advance _ word th choice := advance word th choice
  tick _ env := env.elim

/-- A new gate. -/
def initial (birth : Birth) : Pool UInt64 Thread := ⟨birth.word, []⟩

/-! ## One instruction -/

/-- What one instruction of a thread can do. -/
inductive Effect (word : UInt64) : Thread → UInt64 → Thread → Prop
  | activate {next : UInt64} (h : activate word = some next) :
      Effect word .activate next (.activated true)
  | retire : Effect word .retire (retire word) .retired
  | acquire {next : UInt64} (h : acquire word = some next) :
      Effect word (.acquireFrom word) next .held
  | release {next : UInt64} (h : release word = some next) :
      Effect word (.releaseFrom word) next .released
  | panic {seen : UInt64} (h : release seen = none) :
      Effect word (.releaseFrom seen) word .panicked
  /-- the word is seen by a thread that releases -/
  | see {th : Thread} (hth : th.holds = true) : Effect word th word (.releaseFrom word)
  /-- neither the word nor the lease of the thread changes -/
  | quiet {th th' : Thread} (hholds : th'.holds = th.holds) (hobtained : th'.obtained = th.obtained)
      (hmarked : th.marked = false) (hmarked' : th'.marked = false) : Effect word th word th'

theorem effect_attempt_acquire {word seen : UInt64} {spurious : Bool} {s' : UInt64} {th' : Thread}
    (h : attempt acquire .acquireFrom .held .refused word seen spurious = (s', th')) :
    Effect word (.acquireFrom seen) s' th' := by
  unfold attempt at h
  split at h
  · obtain ⟨rfl, rfl⟩ := Prod.mk.inj h
    exact .quiet rfl rfl rfl rfl
  · next next hnext =>
    split at h
    · next hsame =>
      obtain ⟨rfl, rfl⟩ := Prod.mk.inj h
      obtain ⟨rfl, -⟩ := hsame
      exact .acquire hnext
    · obtain ⟨rfl, rfl⟩ := Prod.mk.inj h
      exact .quiet rfl rfl rfl rfl

theorem effect_attempt_release {word seen : UInt64} {spurious : Bool} {s' : UInt64} {th' : Thread}
    (h : attempt release .releaseFrom .released .panicked word seen spurious = (s', th')) :
    Effect word (.releaseFrom seen) s' th' := by
  unfold attempt at h
  split at h
  · next hnone =>
    obtain ⟨rfl, rfl⟩ := Prod.mk.inj h
    exact .panic hnone
  · next next hnext =>
    split at h
    · next hsame =>
      obtain ⟨rfl, rfl⟩ := Prod.mk.inj h
      obtain ⟨rfl, -⟩ := hsame
      exact .release hnext
    · obtain ⟨rfl, rfl⟩ := Prod.mk.inj h
      exact .see rfl

theorem effect_of_advance {word s' : UInt64} {th th' : Thread} {choice : Choice}
    (h : advance word th choice = some (s', th')) : Effect word th s' th' := by
  -- one case for each point of the three loops; the exchanges have lemmas of their own
  cases th with
  | activate =>
    cases choice with
    | go =>
      delta advance at h
      dsimp only at h
      split at h
      · next next hnext =>
        obtain ⟨rfl, rfl⟩ := Prod.mk.inj (Option.some.inj h)
        exact .activate hnext
      · obtain ⟨rfl, rfl⟩ := Prod.mk.inj (Option.some.inj h)
        exact .quiet rfl rfl rfl rfl
    | spurious | drop => cases h
  | retire =>
    cases choice with
    | go =>
      obtain ⟨rfl, rfl⟩ := Prod.mk.inj (Option.some.inj h)
      exact .retire
    | spurious | drop => cases h
  | acquire =>
    cases choice with
    | go =>
      obtain ⟨rfl, rfl⟩ := Prod.mk.inj (Option.some.inj h)
      exact .quiet rfl rfl rfl rfl
    | spurious | drop => cases h
  | acquireFrom seen =>
    cases choice with
    | go | spurious => exact effect_attempt_acquire (Option.some.inj h)
    | drop => cases h
  | held =>
    cases choice with
    | drop =>
      obtain ⟨rfl, rfl⟩ := Prod.mk.inj (Option.some.inj h)
      exact .quiet rfl rfl rfl rfl
    | go | spurious => cases h
  | release =>
    cases choice with
    | go =>
      obtain ⟨rfl, rfl⟩ := Prod.mk.inj (Option.some.inj h)
      exact .see rfl
    | spurious | drop => cases h
  | releaseFrom seen =>
    cases choice with
    | go | spurious => exact effect_attempt_release (Option.some.inj h)
    | drop => cases h
  | activated | retired | refused | released | panicked => cases choice <;> cases h

/-! ## Every interleaving -/

/-- The leases that are outstanding. -/
def outstanding (threads : List Thread) : Nat := threads.countP Thread.holds

/-- The gate was never activated. -/
def unactivated (birth : Birth) (threads : List Thread) : Bool :=
  decide (birth = .prepared ∧ Thread.activated true ∉ threads)

structure Inv (birth : Birth) (pool : Pool UInt64 Thread) : Prop where
  word : Encodes pool.shared (decide (Thread.retired ∈ pool.threads))
    (unactivated birth pool.threads) (outstanding pool.threads)
  closed : unactivated birth pool.threads = true → ∀ th ∈ pool.threads, th.obtained = false
  seen : ∀ seen, Thread.releaseFrom seen ∈ pool.threads → release seen ≠ none
  calm : Thread.panicked ∉ pool.threads

theorem inv_initial (birth : Birth) : Inv birth (initial birth) := by
  refine ⟨?_, fun _ th h => absurd h List.not_mem_nil, fun _ h => absurd h List.not_mem_nil,
    List.not_mem_nil⟩
  cases birth with
  | prepared => exact Encodes.prepared
  | serving => exact Encodes.serving

section preserved

variable {birth : Birth} {pool : Pool UInt64 Thread} {tid : Nat} {th th' : Thread} {s' : UInt64}

/-- A flag of the gate is set by no other thread than the one that says so. -/
theorem mem_set_of_ne {x : Thread} (hth : pool.threads[tid]? = some th) (hne : th ≠ x)
    (hne' : x ≠ th') : x ∈ pool.threads.set tid th' ↔ x ∈ pool.threads := by
  rw [Pool.mem_set_iff hth hne, or_iff_right hne']

theorem unactivated_set (birth : Birth) (hth : pool.threads[tid]? = some th) (hne : th ≠ .activated true)
    (hne' : .activated true ≠ th') :
    unactivated birth (pool.threads.set tid th') = unactivated birth pool.threads := by
  simp only [unactivated, mem_set_of_ne hth hne hne']

/-- The invariant after an instruction, from what it did to the word. -/
theorem Inv.set (hinv : Inv birth pool)
    (hword : Encodes s' (decide (Thread.retired ∈ pool.threads.set tid th'))
      (unactivated birth (pool.threads.set tid th')) (outstanding (pool.threads.set tid th')))
    (hclosed : unactivated birth (pool.threads.set tid th') = true →
      unactivated birth pool.threads = true ∧ th'.obtained = false)
    (hseen : ∀ seen, th' = .releaseFrom seen → release seen ≠ none) (hcalm : th' ≠ .panicked) :
    Inv birth ⟨s', pool.threads.set tid th'⟩ := by
  refine ⟨hword, ?_, ?_, ?_⟩
  · intro hpending x hx
    obtain ⟨hpending, hobtained⟩ := hclosed hpending
    rcases List.mem_or_eq_of_mem_set hx with hx | rfl
    · exact hinv.closed hpending x hx
    · exact hobtained
  · intro seen hmem
    rcases List.mem_or_eq_of_mem_set hmem with hmem | heq
    · exact hinv.seen seen hmem
    · exact hseen seen heq.symm
  · intro hmem
    rcases List.mem_or_eq_of_mem_set hmem with hmem | heq
    · exact hinv.calm hmem
    · exact hcalm heq.symm

/-- The invariant after an instruction that is no `activate` and no `retire`. -/
theorem Inv.set_of_flags (hinv : Inv birth pool) (hth : pool.threads[tid]? = some th)
    (hretired : th ≠ .retired) (hretired' : .retired ≠ th') (hactivated : th ≠ .activated true)
    (hactivated' : .activated true ≠ th')
    (hword : Encodes s' (decide (Thread.retired ∈ pool.threads)) (unactivated birth pool.threads)
      (outstanding (pool.threads.set tid th')))
    (hobtained : unactivated birth pool.threads = true → th'.obtained = th.obtained)
    (hseen : ∀ seen, th' = .releaseFrom seen → release seen ≠ none) (hcalm : th' ≠ .panicked) :
    Inv birth ⟨s', pool.threads.set tid th'⟩ := by
  have hsame := unactivated_set birth hth hactivated hactivated'
  refine hinv.set ?_ ?_ hseen hcalm
  · simpa only [mem_set_of_ne hth hretired hretired', hsame] using hword
  · intro hpending
    rw [hsame] at hpending
    refine ⟨hpending, ?_⟩
    rw [hobtained hpending]
    exact hinv.closed hpending th (List.mem_of_getElem? hth)

theorem inv_effect (hinv : Inv birth pool) (hth : pool.threads[tid]? = some th)
    (heffect : Effect pool.shared th s' th') : Inv birth ⟨s', pool.threads.set tid th'⟩ := by
  have hcount : outstanding (pool.threads.set tid th') + th.holds.toNat =
      outstanding pool.threads + th'.holds.toNat := Pool.countP_set Thread.holds hth th'
  have hmem : th ∈ pool.threads := List.mem_of_getElem? hth
  have hlt : tid < pool.threads.length := (List.getElem?_eq_some_iff.mp hth).1
  have hword := hinv.word
  cases heffect with
  | activate h =>
    obtain ⟨hretired, hpending, hnone, rfl⟩ := hword.activate_eq_some h
    have hactivated : unactivated birth (pool.threads.set tid (.activated true)) = false := by
      simp [unactivated, List.mem_set hlt]
    have hcount : outstanding (pool.threads.set tid (.activated true)) = 0 := hcount.trans hnone
    refine hinv.set ?_ ?_ (by simp) (by simp)
    · simp only [mem_set_of_ne hth (show Thread.activate ≠ .retired by simp)
        (show Thread.retired ≠ .activated true by simp), hretired, hactivated, hcount]
      exact Encodes.serving
    · rw [hactivated]
      intro h
      cases h
  | retire =>
    have hcount : outstanding (pool.threads.set tid .retired) = outstanding pool.threads := hcount
    have hsame := unactivated_set birth hth (show Thread.retire ≠ .activated true by simp)
      (show Thread.activated true ≠ .retired by simp)
    refine hinv.set ?_ ?_ (by simp) (by simp)
    · simp only [List.mem_set hlt, hsame, hcount, decide_true]
      exact hword.retire
    · rw [hsame]
      intro hpending
      exact ⟨hpending, rfl⟩
  | acquire h =>
    obtain ⟨hretired, hpending, hword'⟩ := hword.acquire_eq_some h
    have hcount : outstanding (pool.threads.set tid .held) = outstanding pool.threads + 1 := hcount
    refine hinv.set_of_flags hth (by simp) (by simp) (by simp) (by simp) ?_ ?_ (by simp) (by simp)
    · rw [hretired, hpending, hcount]
      exact hword'
    · rw [hpending]
      intro h
      cases h
  | release h =>
    have hcount : outstanding (pool.threads.set tid .released) = outstanding pool.threads - 1 := by
      have hcount : _ + 1 = _ + 0 := hcount
      omega
    refine hinv.set_of_flags hth (by simp) (by simp) (by simp) (by simp) ?_ (fun _ => rfl)
      (by simp) (by simp)
    rw [hcount]
    exact hword.release_eq_some h
  | panic h => exact absurd h (hinv.seen _ hmem)
  | see h =>
    have hcount : outstanding (pool.threads.set tid (.releaseFrom pool.shared)) =
        outstanding pool.threads := by
      rw [h] at hcount
      exact Nat.add_right_cancel hcount
    -- the thread that looks at the word has a lease itself
    have hpos : outstanding pool.threads ≠ 0 :=
      Nat.pos_iff_ne_zero.mp (List.countP_pos_iff.mpr ⟨th, hmem, h⟩)
    refine hinv.set_of_flags hth ?_ (by simp) ?_ (by simp) (hcount ▸ hword) ?_ ?_ (by simp)
    · rintro rfl
      cases h
    · rintro rfl
      cases h
    · intro _
      exact (Thread.obtained_of_holds h).symm
    · intro seen heq
      rw [← Thread.releaseFrom.inj heq, ne_eq, hword.release_eq_none]
      exact hpos
  | quiet hholds hobtained hmarked hmarked' =>
    have hcount : outstanding (pool.threads.set tid th') = outstanding pool.threads := by
      rw [hholds] at hcount
      exact Nat.add_right_cancel hcount
    refine hinv.set_of_flags hth ?_ ?_ ?_ ?_ (hcount ▸ hword) (fun _ => hobtained) ?_ ?_
    · rintro rfl
      cases hmarked
    · rintro rfl
      cases hmarked'
    · rintro rfl
      cases hmarked
    · rintro rfl
      cases hmarked'
    · rintro seen rfl
      cases hmarked'
    · rintro rfl
      cases hmarked'

theorem inv_start (call : Call) (hinv : Inv birth pool) :
    Inv birth ⟨pool.shared, pool.threads ++ [startCall call]⟩ := by
  obtain ⟨hword, hclosed, hseen, hcalm⟩ := hinv
  have hactivated : unactivated birth (pool.threads ++ [startCall call]) =
      unactivated birth pool.threads := by
    cases call <;> simp [unactivated, startCall]
  refine ⟨?_, ?_, ?_, ?_⟩
  · simp only [hactivated]
    cases call <;> simpa [startCall, outstanding, Thread.holds] using hword
  · rw [hactivated]
    intro hpending x hx
    rcases List.mem_append.mp hx with hx | hx
    · exact hclosed hpending x hx
    · obtain rfl := List.mem_singleton.mp hx
      cases call <;> rfl
  · cases call <;> simpa [startCall] using hseen
  · cases call <;> simpa [startCall] using hcalm

end preserved

variable {birth : Birth} {pool pool' : Pool UInt64 Thread}

theorem inv_step {event : Event Call Choice Empty} (hinv : Inv birth pool)
    (h : gate.machine.step pool event = some pool') : Inv birth pool' := by
  rw [← gate.under_true] at h
  cases Program.took_of_step h with
  | @start call th hstart =>
    obtain rfl := Option.some.inj hstart
    exact inv_start call hinv
  | step hth _ hadvance => exact inv_effect hinv hth (effect_of_advance hadvance)
  | @tick env _ _ => exact env.elim

theorem inv_run {events : List (Event Call Choice Empty)} (hinv : Inv birth pool)
    (hrun : gate.machine.run pool events = some pool') : Inv birth pool' :=
  Machine.run_invariant (fun _ _ _ h hstep => inv_step h hstep) hinv hrun

/-- What stays so once a gate is retired: a later lease was a lease before. -/
structure After (pool pool' : Pool UInt64 Thread) : Prop where
  retired : Thread.retired ∈ pool'.threads
  obtained : ∀ (tid : Nat) (th' : Thread), pool'.threads[tid]? = some th' → th'.obtained = true →
    ∃ th, pool.threads[tid]? = some th ∧ th.obtained = true

theorem after_step {mid : Pool UInt64 Thread} {event : Event Call Choice Empty}
    (hinv : Inv birth mid) (hafter : After pool mid)
    (h : gate.machine.step mid event = some pool') : After pool pool' := by
  obtain ⟨hretired, hobtained⟩ := hafter
  rw [← gate.under_true] at h
  cases Program.took_of_step h with
  | @start call th hstart =>
    obtain rfl := Option.some.inj hstart
    refine ⟨List.mem_append_left _ hretired, fun tid th' hth' hth => ?_⟩
    rw [List.getElem?_append] at hth'
    split at hth'
    · exact hobtained tid th' hth' hth
    · obtain rfl := List.mem_singleton.mp (List.mem_of_getElem? hth')
      cases call <;> cases hth
  | @step actor choice th th' s' hth _ hadvance =>
    have heffect := effect_of_advance hadvance
    -- the thread that retired the member takes no further step
    have hne : th ≠ .retired := by
      rintro rfl
      cases heffect with
      | see hholds => cases hholds
      | quiet _ _ hmarked _ => cases hmarked
    refine ⟨(Pool.mem_set_iff hth hne).mpr (.inr hretired), fun tid other hother hlease => ?_⟩
    by_cases htid : actor = tid
    · subst htid
      have hlt : actor < mid.threads.length := (List.getElem?_eq_some_iff.mp hth).1
      rw [List.getElem?_set_self hlt, Option.some.injEq] at hother
      subst hother
      refine hobtained actor th hth ?_
      cases heffect with
      | activate => cases hlease
      | retire => cases hlease
      -- the gate is closed, and nothing is acquired
      | acquire hnext =>
        have hopen := (hinv.word.acquire_eq_some hnext).1
        exact absurd hretired (of_decide_eq_false hopen)
      | release => rfl
      | panic => rfl
      | see hholds => exact Thread.obtained_of_holds hholds
      | quiet _ hsame => exact hsame ▸ hlease
    · rw [List.getElem?_set_ne htid] at hother
      exact hobtained tid other hother hlease
  | @tick env _ _ => exact env.elim

theorem after_run {events : List (Event Call Choice Empty)} (hinv : Inv birth pool)
    (hretired : Thread.retired ∈ pool.threads) (hrun : gate.machine.run pool events = some pool') :
    After pool pool' := by
  let Kept := fun mid : Pool UInt64 Thread => Inv birth mid ∧ After pool mid
  have hstart : Kept pool := ⟨hinv, hretired, fun _ th hth h => ⟨th, hth, h⟩⟩
  have hstep : ∀ mid event mid', Kept mid → gate.machine.step mid event = some mid' → Kept mid' := by
    intro mid event mid' h hstep
    exact ⟨inv_step h.1 hstep, after_step h.1 h.2 hstep⟩
  exact (Machine.run_invariant hstep hstart hrun).2

/-- **The admission gate.** In every interleaving, the count is the number of
    outstanding leases, and a full count refuses. The retired flag says whether some
    `retire` took place and the pending flag whether the gate still waits for its
    activation, whatever the count is. A gate that
    was not activated has given no lease; a retired one is not open later, and
    every lease that exists later was obtained before. No release panics. -/
theorem gate_safe (birth : Birth) (events later : List (Event Call Choice Empty))
    (pool pool' : Pool UInt64 Thread)
    (hrun : gate.machine.run (initial birth) events = some pool)
    (hlater : gate.machine.run pool later = some pool') :
    ((active pool.shared).toNat = outstanding pool.threads ∧
      outstanding pool.threads ≤ countMask.toNat ∧
      (outstanding pool.threads = countMask.toNat → acquire pool.shared = none)) ∧
    ((pool.shared &&& retiredFlag ≠ 0 ↔ Thread.retired ∈ pool.threads) ∧
      (pool.shared &&& pendingFlag ≠ 0 ↔
        birth = .prepared ∧ Thread.activated true ∉ pool.threads)) ∧
    (birth = .prepared → Thread.activated true ∉ pool.threads →
      ∀ th ∈ pool.threads, th.obtained = false) ∧
    (Thread.retired ∈ pool.threads →
      isOpen pool'.shared = false ∧
      ∀ (tid : Nat) (th' : Thread), pool'.threads[tid]? = some th' → th'.obtained = true →
        ∃ th, pool.threads[tid]? = some th ∧ th.obtained = true) ∧
    Thread.panicked ∉ pool.threads := by
  have hinv := inv_run (inv_initial birth) hrun
  refine ⟨⟨hinv.word.active, ?_, hinv.word.acquire_full⟩, ⟨?_, ?_⟩, ?_, ?_, hinv.calm⟩
  · exact Nat.le_sub_one_of_lt hinv.word.bounded
  -- both flags are bits of the word, above the count
  · rw [ne_eq, and_flag_eq_zero toNat_retiredFlag, hinv.word.testBit_retired]
    simp
  · rw [ne_eq, and_flag_eq_zero toNat_pendingFlag, hinv.word.testBit_pending]
    simp [unactivated]
  · intro hbirth hactivated
    exact hinv.closed (decide_eq_true ⟨hbirth, hactivated⟩)
  · intro hretired
    -- what a retired gate had given out before is all there is later
    have hafter := after_run hinv hretired hlater
    have hclosed : ¬ isOpen pool'.shared = true := by
      rw [(inv_run hinv hlater).word.isOpen_iff]
      intro h
      exact absurd hafter.retired (of_decide_eq_false h.2)
    exact ⟨Bool.eq_false_of_not_eq_true hclosed, hafter.obtained⟩

/-- A prepared gate refuses a caller, is activated and gives two leases. The first
    is dropped after the gate was retired, against an attempt that fails. -/
def twoLeases : List (Event Call Choice Empty) :=
  [.start .acquire, .step 0 .go, .step 0 .go, .start .activate, .step 1 .go,
    .start .acquire, .start .acquire, .step 2 .go, .step 3 .go, .step 2 .go, .step 3 .go,
    .step 3 .spurious, .step 3 .go, .start .retire, .step 4 .go]

def dropOne : List (Event Call Choice Empty) :=
  [.step 2 .drop, .step 2 .go, .step 2 .spurious, .step 2 .go]

theorem gate_safe_two_leases :
    ∃ pool pool', gate.machine.run (initial .prepared) twoLeases = some pool ∧
      gate.machine.run pool dropOne = some pool' ∧ outstanding pool.threads = 2 ∧
      (active pool.shared).toNat = 2 ∧ isOpen pool'.shared = false := by
  obtain ⟨pool, pool', hrun, hlater, hretired, htwo⟩ : ∃ pool pool',
      gate.machine.run (initial .prepared) twoLeases = some pool ∧
      gate.machine.run pool dropOne = some pool' ∧
      Thread.retired ∈ pool.threads ∧ outstanding pool.threads = 2 :=
    ⟨_, _, rfl, rfl, by decide +kernel, by decide +kernel⟩
  obtain ⟨⟨hactive, -⟩, -, -, hafter, -⟩ := gate_safe .prepared _ _ _ _ hrun hlater
  exact ⟨pool, pool', hrun, hlater, htwo, hactive.trans htwo, (hafter hretired).1⟩

end MemberAdmission
