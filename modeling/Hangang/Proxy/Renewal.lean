import Hangang.Framework.Fields
import Hangang.Framework.Http
import Hangang.Framework.IpText
import Hangang.Framework.Machine

/-! # Renewed Evidence

    The model of `Renewal` in `proxy.rs`: the evidence behind a long-lived stream
    holds for at most a second, and a task renews it for as long as the stream
    is open.

    Streams and task share a flag and a deadline. `current` reads the flag, then
    the deadline under its lock, and sets the flag if it comes to the answer no;
    the task does the same around its own work. The steps of all of them
    interleave freely here, one shared access at a time.

    * **No revival**: behind a call that answered no, no call that begins answers
      yes.
    * **Extension**: the deadline moves only on a successful reply for the same
      identity, and before it has passed.
    * **Freshness**: behind an answer yes stands a verification of the last second. -/

open Bytes Http

namespace Renewal

/-! ## Replies -/

/-- A millisecond, in the unit of the clock. -/
def ms : Nat := 1000000

def ttlHeader : Bytes := ascii "x-hopae-evidence-ttl-ms"

/-- The lifetime a `x-hopae-evidence-ttl-ms` value gives. -/
def readTtl (value : Bytes) : Option Nat := do
  let text ← toStr value
  guard (!text.isEmpty && text.all isAsciiDigit)
  guard (1 ≤ IpAddr.readDecimal text ∧ IpAddr.readDecimal text ≤ 1000)
  return IpAddr.readDecimal text

/-- The lifetime in the headers of a reply. -/
def evidenceTtl (headers : Fields) : Option Nat :=
  match headers.getAll ttlHeader with
  | [] => some 1000
  | [value] => readTtl value
  | _ => none

/-- `native_evidence_expiry`, which reads the clock at `now`. -/
def nativeEvidenceExpiry (headers : Fields) (started now : Nat) : Option Nat := do
  let ttl ← evidenceTtl headers
  guard (now < started + ttl * ms)
  return started + ttl * ms

/-- `Renewal::identity`: four headers with one value each. -/
def identity (headers : Fields) : Option (List Bytes) :=
  [ascii "x-forwarded-user", ascii "x-hopae-principal-kind", ascii "x-hopae-aal",
    ascii "x-hopae-service-id"].mapM fun name =>
      match headers.getAll name with
      | [value] => some value
      | _ => none

/-- The checks of `Renewal::start`: the first deadline and the identity to keep. -/
def start (headers : Fields) (started at1 at2 : Nat) : Option (Nat × List Bytes) := do
  guard (headers.containsKey ttlHeader)
  let expires ← nativeEvidenceExpiry headers started at1
  guard (100 * ms ≤ expires - at2)
  let user ← identity headers
  return (expires, user)

structure Reply where
  success : Bool
  headers : Fields

/-- What a reply to a verification that began at `began` renews the deadline to; `none` is
    an error or the timeout. -/
def renewed (user : List Bytes) (began : Nat) (reply : Option Reply) (at1 at2 : Nat) :
    Option Nat := do
  let reply ← reply
  guard (reply.success ∧ reply.headers.containsKey ttlHeader ∧
    identity reply.headers = some user)
  let deadline ← nativeEvidenceExpiry reply.headers began at1
  guard (100 * ms ≤ deadline - at2)
  return deadline

/-! ## The machine -/

/-- A call of `current`: before its first access, with the flag read as clear, or bound to
    set the flag. -/
inductive Call where
  | idle
  | checking
  | failing
deriving DecidableEq

/-- Where the task is in its loop. -/
inductive Task where
  | reading
  | first (expiry : Nat)
  | sleeping (wake : Nat)
  | second
  | starting
  | verifying (began : Nat)
  | third (renewed : Option Nat) (began : Nat)
  | writing (deadline began : Nat)
  | locked (deadline began : Nat)
  | failing
  | stopped
deriving DecidableEq

/-- The task calls `current` itself. -/
def Task.calling : Task → Bool
  | .first _ | .second | .third _ _ => true
  | _ => false

def Task.isLocked : Task → Bool
  | .locked _ _ => true
  | _ => false

/-- Behind its own call of `current`. -/
def Task.after (now : Nat) : Task → Bool → Task
  | .first expiry, true => .sleeping (now + (expiry - now) / 2)
  | .second, true => .starting
  | .third (some deadline) began, true => .writing deadline began
  | .third _ _, _ => .failing
  | _, _ => .stopped

/-- The deadline a verification has confirmed and the task is to write. -/
def Task.pending : Task → Option (Nat × Nat)
  | .third (some deadline) began => some (deadline, began)
  | .writing deadline began => some (deadline, began)
  | .locked deadline began => some (deadline, began)
  | _ => none

variable {Stream : Type}

/-- The shared variables, the calls of the streams and of the task (`none`), and the task. -/
structure State (Stream : Type) where
  now : Nat
  failed : Bool
  expires : Nat
  calls : Option Stream → Call
  task : Task

inductive Label (Stream : Type) where
  | tick (elapsed : Nat)
  | load (who : Option Stream)
  | compare (who : Option Stream)
  | store (who : Option Stream)
  | readExpiry
  | wake
  | verify (began : Nat)
  | reply (outcome : Option Reply) (at1 at2 : Nat)
  | lock
  | write
  | fail
  | abort

def Label.isReply : Label Stream → Bool
  | .reply _ _ _ => true
  | _ => false

def State.initial (now expires : Nat) : State Stream :=
  ⟨now, false, expires, fun _ => .idle, .reading⟩

variable [DecidableEq Stream]

def State.setCall (s : State Stream) (who : Option Stream) (call : Call) : State Stream :=
  { s with calls := fun w => if w = who then call else s.calls w }

/-- A call returns; the task goes on behind its own. -/
def State.returned (s : State Stream) (who : Option Stream) (result : Bool) : State Stream :=
  { s.setCall who .idle with
    task := if who = none then s.task.after s.now result else s.task }

/-- One access to the shared variables, or one step of the task or the clock. -/
def step (user : List Bytes) (s : State Stream) : Label Stream → Option (State Stream)
  | .tick elapsed => some { s with now := s.now + elapsed }
  | .load who =>
    if s.calls who = .idle ∧ (who = none → s.task.calling = true) then
      some (s.setCall who (if s.failed then .failing else .checking)) else none
  | .compare who =>
    if s.calls who = .checking ∧ s.task.isLocked = false then
      some (if s.now < s.expires then s.returned who true else s.setCall who .failing) else none
  | .store who =>
    if s.calls who = .failing then some ({ s with failed := true }.returned who false) else none
  | .readExpiry =>
    if s.task = .reading then some { s with task := .first s.expires } else none
  | .wake =>
    match s.task with
    | .sleeping wake => if wake ≤ s.now then some { s with task := .second } else none
    | _ => none
  | .verify began =>
    if s.task = .starting ∧ s.now ≤ began then
      some { s with now := began, task := .verifying began } else none
  | .reply outcome at1 at2 =>
    match s.task with
    | .verifying began =>
      if s.now ≤ at1 ∧ at1 ≤ at2 then
        some { s with now := at2, task := .third (renewed user began outcome at1 at2) began }
      else none
    | _ => none
  | .lock =>
    match s.task with
    | .writing deadline began =>
      some { s with task := if s.failed then .failing else .locked deadline began }
    | _ => none
  | .write =>
    match s.task with
    | .locked deadline _ =>
      some (if s.now < s.expires then { s with expires := deadline, task := .reading }
        else { s with task := .failing })
    | _ => none
  | .fail => if s.task = .failing then some { s with failed := true, task := .stopped } else none
  | .abort =>
    if s.calls none = .idle ∧ s.task.isLocked = false then some { s with task := .stopped }
    else none

def machine (user : List Bytes) : Machine (State Stream) (Label Stream) := ⟨step user⟩

/-- The next access of the call makes it return `true`. -/
def State.Affirms (s : State Stream) (who : Option Stream) : Prop :=
  s.calls who = .checking ∧ s.task.isLocked = false ∧ s.now < s.expires

/-! ## What a step can do -/

variable {user : List Bytes} {s s' : State Stream} {l : Label Stream} {result : Bool}
  {now began started deadline : Nat} {who : Option Stream} {ls : List (Label Stream)}

theorem pending_after {t : Task} {p : Nat × Nat} (h : (t.after now result).pending = some p) :
    t.pending = some p := by
  unfold Task.after at h
  split at h <;> simp_all [Task.pending]

theorem after_ne_verifying {t : Task} :
    t.after now result ≠ .verifying began := by
  unfold Task.after
  split <;> simp

/-- What a step does to the parts the results speak about. -/
structure Effect (user : List Bytes) (s : State Stream) (l : Label Stream) (s' : State Stream) :
    Prop where
  clock : s.now ≤ s'.now
  flag : s.failed = true → s'.failed = true
  calls : ∀ who, s'.calls who = .checking →
    s.calls who = .checking ∨ l = .load who ∧ s.failed = false
  deadline : s'.expires = s.expires ∨
    ∃ began, s.task.pending = some (s'.expires, began) ∧ s.now < s.expires
  pending : ∀ p, s'.task.pending = some p → s.task.pending = some p ∨
    ∃ r at1 at2, l = .reply (some r) at1 at2 ∧ s.task = .verifying p.2 ∧
      renewed user p.2 (some r) at1 at2 = some p.1
  verifying : ∀ began, s'.task = .verifying began →
    s.task = .verifying began ∧ l.isReply = false ∨ l = .verify began ∧ s'.now = began

omit [DecidableEq Stream] in
/-- A step that leaves the task, the flag and the deadline alone and puts no call on its way
    to an answer yes. -/
theorem Effect.of_task_eq (hclock : s.now ≤ s'.now) (hfailed : s'.failed = s.failed)
    (hcalls : ∀ who, s'.calls who = .checking →
      s.calls who = .checking ∨ l = .load who ∧ s.failed = false)
    (hexpires : s'.expires = s.expires) (htask : s'.task = s.task) (hl : l.isReply = false) :
    Effect user s l s' where
  clock := hclock
  flag h := hfailed.trans h
  calls := hcalls
  deadline := .inl hexpires
  pending _ h := .inl (htask ▸ h)
  verifying _ h := .inl ⟨htask ▸ h, hl⟩

omit [DecidableEq Stream] in
/-- A step of the task to a place with nothing pending. -/
theorem Effect.of_task {task : Task} {failed : Bool} (hfailed : s.failed = true → failed = true)
    (hpending : ∀ p, task.pending = some p → s.task.pending = some p)
    (hverifying : ∀ began, task ≠ .verifying began) :
    Effect user s l { s with failed := failed, task := task } where
  clock := le_refl _
  flag := hfailed
  calls _ h := .inl h
  deadline := .inl rfl
  pending p h := .inl (hpending p h)
  verifying began h := absurd h (hverifying began)

theorem calls_setCall {w : Option Stream} {call : Call} (hcall : call ≠ .checking)
    (h : (s.setCall who call).calls w = .checking) : s.calls w = .checking := by
  by_cases hw : w = who
  · simp [State.setCall, hw, hcall] at h
  · simpa [State.setCall, hw] using h

theorem Effect.of_returned {failed : Bool} (hfailed : s.failed = true → failed = true)
    (hl : l.isReply = false) :
    Effect user s l ({ s with failed := failed }.returned who result) where
  clock := le_refl _
  flag := hfailed
  calls w h := .inl (calls_setCall (by decide) h)
  deadline := .inl rfl
  pending p h := by
    by_cases hwho : who = none
    · exact .inl (pending_after (by simpa [State.returned, hwho] using h))
    · exact .inl (by simpa [State.returned, hwho] using h)
  verifying began h := by
    by_cases hwho : who = none
    · exact absurd (by simpa [State.returned, hwho] using h) after_ne_verifying
    · exact .inl ⟨by simpa [State.returned, hwho] using h, hl⟩

theorem step_effect (h : step user s l = some s') : Effect user s l s' := by
  cases l with
  | tick elapsed =>
    obtain rfl := Option.some.inj h
    exact .of_task_eq (Nat.le_add_right _ _) rfl (fun _ h => .inl h) rfl rfl rfl
  | load who =>
    obtain ⟨-, h⟩ := Option.ite_none_right_eq_some.mp h
    obtain rfl := Option.some.inj h
    refine .of_task_eq (le_refl _) rfl (fun w h => ?_) rfl rfl rfl
    by_cases hw : w = who
    · subst hw
      exact .inr ⟨rfl, by simpa [State.setCall] using h⟩
    · exact .inl (by simpa [State.setCall, hw] using h)
  | compare who =>
    obtain ⟨-, h⟩ := Option.ite_none_right_eq_some.mp h
    obtain rfl := Option.some.inj h
    split
    · exact .of_returned id rfl
    · exact .of_task_eq (le_refl _) rfl (fun w h => .inl (calls_setCall (by decide) h)) rfl rfl rfl
  | store who =>
    obtain ⟨-, h⟩ := Option.ite_none_right_eq_some.mp h
    obtain rfl := Option.some.inj h
    exact .of_returned (fun _ => rfl) rfl
  | readExpiry =>
    obtain ⟨-, h⟩ := Option.ite_none_right_eq_some.mp h
    obtain rfl := Option.some.inj h
    exact .of_task id (by simp [Task.pending]) (by simp)
  | wake =>
    simp only [step] at h
    split at h
    · obtain ⟨-, h⟩ := Option.ite_none_right_eq_some.mp h
      obtain rfl := Option.some.inj h
      exact .of_task id (by simp [Task.pending]) (by simp)
    · cases h
  | verify began =>
    obtain ⟨hguard, h⟩ := Option.ite_none_right_eq_some.mp h
    obtain rfl := Option.some.inj h
    refine ⟨hguard.2, id, fun _ h => .inl h, .inl rfl, by simp [Task.pending], ?_⟩
    intro b hb
    have hb : Task.verifying began = .verifying b := hb
    obtain rfl := Task.verifying.inj hb
    exact .inr ⟨rfl, rfl⟩
  | reply outcome at1 at2 =>
    simp only [step] at h
    split at h
    · next began htask =>
      obtain ⟨hguard, h⟩ := Option.ite_none_right_eq_some.mp h
      obtain rfl := Option.some.inj h
      refine ⟨hguard.1.trans hguard.2, id, fun _ h => .inl h, .inl rfl, ?_, by simp⟩
      intro p hp
      -- only a reply that renews is pending
      cases outcome with
      | none => simp [renewed, Task.pending] at hp
      | some r =>
        refine .inr ⟨r, at1, at2, rfl, ?_⟩
        cases hrenewed : renewed user began (some r) at1 at2 with
        | none => simp [hrenewed, Task.pending] at hp
        | some deadline =>
          have hp : (deadline, began) = p := by simpa [hrenewed, Task.pending] using hp
          obtain rfl := hp
          exact ⟨htask, hrenewed⟩
    · cases h
  | lock =>
    simp only [step] at h
    split at h
    · next deadline began htask =>
      obtain rfl := Option.some.inj h
      refine .of_task id (fun p hp => ?_) (fun b hb => ?_)
      · split at hp
        · simp [Task.pending] at hp
        · simpa [htask, Task.pending] using hp
      · split at hb <;> simp at hb
    · cases h
  | write =>
    simp only [step] at h
    split at h
    · next deadline began htask =>
      obtain rfl := Option.some.inj h
      split
      · next hnow =>
        refine ⟨le_refl _, id, fun _ h => .inl h, .inr ⟨began, ?_, hnow⟩, ?_, ?_⟩
        · simp [htask, Task.pending]
        · simp [Task.pending]
        · simp
      · exact .of_task id (by simp [Task.pending]) (by simp)
    · cases h
  | fail =>
    obtain ⟨-, h⟩ := Option.ite_none_right_eq_some.mp h
    obtain rfl := Option.some.inj h
    exact .of_task (fun _ => rfl) (by simp [Task.pending]) (by simp)
  | abort =>
    obtain ⟨-, h⟩ := Option.ite_none_right_eq_some.mp h
    obtain rfl := Option.some.inj h
    exact .of_task id (by simp [Task.pending]) (by simp)

/-! ## Verifications -/

theorem nativeEvidenceExpiry_le {headers : Fields} {expiry : Nat}
    (h : nativeEvidenceExpiry headers started now = some expiry) :
    expiry ≤ started + 1000 * ms := by
  obtain ⟨ttl, httl, h⟩ := Option.bind_eq_some_iff.mp h
  obtain ⟨-, -, h⟩ := Option.bind_eq_some_iff.mp h
  have hle : ttl ≤ 1000 := by
    unfold evidenceTtl at httl
    split at httl
    · exact (Option.some.inj httl).ge
    · obtain ⟨text, -, httl⟩ := Option.bind_eq_some_iff.mp httl
      obtain ⟨-, -, httl⟩ := Option.bind_eq_some_iff.mp httl
      obtain ⟨_, hbounds, httl⟩ := Option.bind_eq_some_iff.mp httl
      rw [← Option.some.inj httl]
      exact (by simpa [guard] using hbounds : _ ∧ _).2
    · cases httl
  rw [← Option.some.inj h]
  exact Nat.add_le_add_left (Nat.mul_le_mul_right ms hle) started

/-- In the history a verification began at `began`, and its reply was a success for the
    identity `user` that renews the deadline to `deadline`. -/
def Confirms (user : List Bytes) (ls : List (Label Stream)) (began deadline : Nat) : Prop :=
  ∃ before mid after r at1 at2,
    ls = before ++ .verify began :: (mid ++ .reply (some r) at1 at2 :: after) ∧
    (∀ l ∈ mid, l.isReply = false) ∧ r.success = true ∧ identity r.headers = some user ∧
    nativeEvidenceExpiry r.headers began at1 = some deadline

omit [DecidableEq Stream] in
theorem Confirms.snoc (h : Confirms user ls began deadline) (l : Label Stream) :
    Confirms user (ls ++ [l]) began deadline := by
  obtain ⟨before, mid, after, r, at1, at2, rfl, hrest⟩ := h
  exact ⟨before, mid, after ++ [l], r, at1, at2, by simp, hrest⟩

omit [DecidableEq Stream] in
theorem Confirms.le (h : Confirms user ls began deadline) : deadline ≤ began + 1000 * ms := by
  obtain ⟨before, mid, after, r, at1, at2, -, -, -, -, hexpiry⟩ := h
  exact nativeEvidenceExpiry_le hexpiry

theorem renewed_eq_some {r : Reply} {at1 at2 : Nat}
    (h : renewed user began (some r) at1 at2 = some deadline) :
    r.success = true ∧ identity r.headers = some user ∧
      nativeEvidenceExpiry r.headers began at1 = some deadline := by
  obtain ⟨_, hguard, h⟩ := Option.bind_eq_some_iff.mp h
  obtain ⟨expiry, hexpiry, h⟩ := Option.bind_eq_some_iff.mp h
  obtain ⟨-, -, h⟩ := Option.bind_eq_some_iff.mp h
  obtain rfl := Option.some.inj h
  have hguard : r.success ∧ r.headers.containsKey ttlHeader ∧ identity r.headers = some user := by
    simpa [guard] using hguard
  exact ⟨hguard.1, hguard.2.2, hexpiry⟩

/-- What the history says about the task and the deadline. -/
structure Inv (user : List Bytes) (started : Nat) (ls : List (Label Stream)) (s : State Stream) :
    Prop where
  verifying : ∀ began, s.task = .verifying began → began ≤ s.now ∧
    ∃ before mid, ls = before ++ .verify began :: mid ∧ ∀ l ∈ mid, l.isReply = false
  pending : ∀ p, s.task.pending = some p → p.2 ≤ s.now ∧ Confirms user ls p.2 p.1
  fresh : ∃ began, began ≤ s.now ∧ s.expires ≤ began + 1000 * ms ∧
    (began = started ∨ ∃ deadline, Confirms user ls began deadline)

theorem inv_step (hinv : Inv user started ls s) (h : step user s l = some s') :
    Inv user started (ls ++ [l]) s' := by
  have heffect := step_effect h
  refine ⟨?_, ?_, ?_⟩
  · intro began htask
    rcases heffect.verifying began htask with ⟨hbefore, hl⟩ | ⟨rfl, hnow⟩
    · obtain ⟨hle, before, mid, rfl, hmid⟩ := hinv.verifying began hbefore
      refine ⟨hle.trans heffect.clock, before, mid ++ [l], by simp, ?_⟩
      intro l' hl'
      rcases List.mem_append.mp hl' with hl' | hl'
      · exact hmid l' hl'
      · rwa [List.mem_singleton.mp hl']
    · exact ⟨hnow.ge, ls, [], by simp, by simp⟩
  · intro p hp
    rcases heffect.pending p hp with hbefore | ⟨r, at1, at2, rfl, htask, hrenewed⟩
    · obtain ⟨hle, hconfirms⟩ := hinv.pending p hbefore
      exact ⟨hle.trans heffect.clock, hconfirms.snoc l⟩
    · -- the reply ends the verification the task was waiting for
      obtain ⟨hle, before, mid, rfl, hmid⟩ := hinv.verifying p.2 htask
      obtain ⟨hsuccess, huser, hexpiry⟩ := renewed_eq_some hrenewed
      refine ⟨hle.trans heffect.clock, before, mid, [], r, at1, at2, by simp, hmid, ?_⟩
      exact ⟨hsuccess, huser, hexpiry⟩
  · rcases heffect.deadline with hsame | ⟨began, hpending, -⟩
    · obtain ⟨began, hle, hbound, horigin⟩ := hinv.fresh
      refine ⟨began, hle.trans heffect.clock, hsame ▸ hbound, horigin.imp_right ?_⟩
      intro hconfirms
      exact ⟨hconfirms.choose, hconfirms.choose_spec.snoc l⟩
    · obtain ⟨hle, hconfirms⟩ := hinv.pending _ hpending
      refine ⟨began, hle.trans heffect.clock, hconfirms.le, .inr ⟨_, hconfirms.snoc l⟩⟩

omit [DecidableEq Stream] in
theorem inv_initial {headers : Fields} {at1 at2 expires : Nat}
    (hstart : start headers started at1 at2 = some (expires, user))
    (hclock : started ≤ at1 ∧ at1 ≤ at2) :
    Inv user started [] (State.initial at2 expires : State Stream) := by
  refine ⟨by simp [State.initial], by simp [State.initial, Task.pending], started, ?_, ?_, .inl rfl⟩
  · exact hclock.1.trans hclock.2
  · obtain ⟨-, -, hstart⟩ := Option.bind_eq_some_iff.mp hstart
    obtain ⟨expiry, hexpiry, hstart⟩ := Option.bind_eq_some_iff.mp hstart
    obtain ⟨-, -, hstart⟩ := Option.bind_eq_some_iff.mp hstart
    obtain ⟨user', -, hstart⟩ := Option.bind_eq_some_iff.mp hstart
    rw [← (Prod.mk.inj (Option.some.inj hstart)).1]
    exact nativeEvidenceExpiry_le hexpiry

/-! ## Calls behind a refusal -/

/-- With the flag set, a call that begins never reads the deadline. -/
theorem not_checking_of_failed (hfailed : s.failed = true)
    (hrun : (machine user).run s (.load who :: ls) = some s') (hls : .load who ∉ ls) :
    s'.calls who ≠ .checking := by
  obtain ⟨t, hload, hrun⟩ := (machine user).run_cons_eq_some.mp hrun
  have ht : t.calls who ≠ .checking := by
    obtain ⟨-, hload⟩ := Option.ite_none_right_eq_some.mp hload
    obtain rfl := Option.some.inj hload
    simp [State.setCall, hfailed]
  refine Machine.run_invariant_of_labels (fun s => s.calls who ≠ .checking) (· ≠ .load who) ?_
    (fun l hl hload => hls (by rwa [← hload])) ht hrun
  intro u l u' hl hu hstep hchecking
  rcases (step_effect hstep).calls who hchecking with hbefore | ⟨hload, -⟩
  · exact hu hbefore
  · exact hl hload

/-- **Evidence renewal**, over every run of the streams, the task and the replies behind a
    successful `start`: once a call has set the flag and returned `false`, a call that begins
    afterwards does not return `true`; the deadline changes only before it has passed, to
    that of a successful reply for the same identity; and whenever a call returns `true`, a
    verification of that identity began within the last 1000 milliseconds. -/
theorem evidence_renewal_monotone {headers : Fields} {started at1 at2 expires : Nat}
    (hstart : start headers started at1 at2 = some (expires, user))
    (hclock : started ≤ at1 ∧ at1 ≤ at2) :
    (∀ (earlier later rest : List (Label Stream)) who who' s,
      (machine user).run (State.initial at2 expires)
          (earlier ++ .store who :: (later ++ .load who' :: rest)) = some s →
        .load who' ∉ rest → ¬s.Affirms who') ∧
    (∀ (ls : List (Label Stream)) l s s',
      (machine user).run (State.initial at2 expires) ls = some s →
        (machine user).step s l = some s' → s'.expires ≠ s.expires →
        s.now < s.expires ∧ ∃ began, Confirms user ls began s'.expires) ∧
    ∀ (ls : List (Label Stream)) s who,
      (machine user).run (State.initial at2 expires) ls = some s → s.Affirms who →
      ∃ began, began ≤ s.now ∧ s.now < began + 1000 * ms ∧
        (began = started ∨ ∃ deadline, Confirms user ls began deadline) := by
  have hinv : ∀ (ls : List (Label Stream)) s,
      (machine user).run (State.initial at2 expires) ls = some s → Inv user started ls s := by
    intro ls s hrun
    exact Machine.run_history (fun ls s l s' hinv h => inv_step hinv h)
      (inv_initial hstart hclock) hrun
  refine ⟨?_, ?_, ?_⟩
  · intro earlier later rest who who' s hrun hrest haffirms
    obtain ⟨s1, -, hrun⟩ := (machine user).run_append_eq_some.mp hrun
    obtain ⟨s2, hstore, hrun⟩ := (machine user).run_cons_eq_some.mp hrun
    obtain ⟨s3, hlater, hrun⟩ := (machine user).run_append_eq_some.mp hrun
    -- the refusal leaves the flag set, and no step clears it
    have hfailed : s2.failed = true := by
      obtain ⟨-, hstore⟩ := Option.ite_none_right_eq_some.mp hstore
      rw [← Option.some.inj hstore]
      rfl
    have hfailed : s3.failed = true :=
      @Machine.run_invariant _ _ (machine user) (fun s => s.failed = true)
        (fun s l s' hs h => (step_effect h).flag hs) _ _ _ hfailed hlater
    exact not_checking_of_failed hfailed hrun hrest haffirms.1
  · intro ls l s s' hrun hstep hne
    rcases (step_effect hstep).deadline with hsame | ⟨began, hpending, hnow⟩
    · exact absurd hsame hne
    · exact ⟨hnow, began, ((hinv ls s hrun).pending _ hpending).2⟩
  · intro ls s who hrun haffirms
    obtain ⟨began, hle, hbound, horigin⟩ := (hinv ls s hrun).fresh
    exact ⟨began, hle, haffirms.2.2.trans_le hbound, horigin⟩

namespace Sample

def person : List Bytes := [ascii "s_a", ascii "service", ascii "0", ascii "app"]

def headers : Fields :=
  Fields.ofList [(ttlHeader, ascii "1000"), (ascii "x-forwarded-user", ascii "s_a"),
    (ascii "x-hopae-principal-kind", ascii "service"), (ascii "x-hopae-aal", ascii "0"),
    (ascii "x-hopae-service-id", ascii "app")]

/-- The task renews the evidence after half a second. -/
def renewal : List (Label Unit) :=
  [.readExpiry, .load none, .compare none, .tick (500 * ms), .wake, .load none, .compare none,
    .verify (500 * ms), .reply (some ⟨true, headers⟩) (500 * ms) (500 * ms), .load none,
    .compare none, .lock, .write]

end Sample

/-- A stream that asks after the first deadline is answered yes, by the renewal. One that asks
    when the renewed second is over is answered no, and asks again. -/
theorem evidence_renewal_monotone_expired :
    (∃ s began deadline, (machine Sample.person).run (State.initial 0 (1000 * ms))
        (Sample.renewal ++ [.tick (700 * ms), .load (some ())]) = some s ∧
      s.Affirms (some ()) ∧ s.now < began + 1000 * ms ∧
      Confirms Sample.person (Sample.renewal ++ [.tick (700 * ms), .load (some ())]) began
        deadline) ∧
    ∃ s, (machine Sample.person).run (State.initial 0 (1000 * ms))
        (Sample.renewal ++ [.tick (1000 * ms), .load (some ()), .compare (some ())] ++
          .store (some ()) :: ([] ++ .load (some ()) :: [])) = some s ∧ ¬s.Affirms (some ()) := by
  have hstart : start Sample.headers 0 0 0 = some (1000 * ms, Sample.person) := by decide +kernel
  obtain ⟨hrefused, -, hfresh⟩ := @evidence_renewal_monotone Unit _ _ _ _ _ _ _ hstart (by decide)
  constructor
  · obtain ⟨s, hrun, hnow, haffirms⟩ : ∃ s, (machine Sample.person).run
        (State.initial 0 (1000 * ms)) (Sample.renewal ++ [.tick (700 * ms), .load (some ())]) =
          some s ∧ s.now = 1200 * ms ∧ s.Affirms (some ()) := ⟨_, rfl, rfl, rfl, rfl, by decide⟩
    obtain ⟨began, -, hbound, rfl | ⟨deadline, hconfirms⟩⟩ := hfresh _ s _ hrun haffirms
    · rw [hnow] at hbound
      exact absurd hbound (by decide)
    · exact ⟨s, began, deadline, hrun, haffirms, hbound, hconfirms⟩
  · obtain ⟨s, hrun⟩ : ∃ s, (machine Sample.person).run (State.initial 0 (1000 * ms))
        (Sample.renewal ++ [.tick (1000 * ms), .load (some ()), .compare (some ())] ++
          .store (some ()) :: ([] ++ .load (some ()) :: [])) = some s := ⟨_, rfl⟩
    exact ⟨s, hrun, hrefused _ _ _ _ _ s hrun List.not_mem_nil⟩

end Renewal
