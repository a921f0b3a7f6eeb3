import Hangang.Framework.Machine

/-! # The Refresh Monitor

    The model of `RefreshMonitor` in `jwt_runtime.rs`. Sessions that outlive their
    request retain the monitor of the key provider, and one task refreshes the keys
    for all of them. It is started by the first session, stays for a grace period
    behind the last one, and is started again when it has gone.

    Start, count and end are decided under one lock; the task sleeps outside it. A
    sleep ends by its timer or by a notification; both are allowed at any time here,
    so the runs include those of the scheduler. The key provider is alive throughout.

    * **Accounting**: the counter is the number of retained sessions.
    * **Singleton**: the flag tells whether there is a task, and there is never a
      second one.
    * **Service**: while a session is retained there is a task, and it finds the
      request to refresh with. -/

namespace RefreshMonitor

variable {Session Request : Type}

/-! ## Under the lock -/

/-- `RefreshState`. -/
structure RefreshState (Request : Type) where
  active : Nat
  running : Bool
  request : Option Request
  idleDeadline : Option Nat

/-- `MONITOR_IDLE_GRACE`, in nanoseconds. -/
def monitorIdleGrace : Nat := 2000000000

/-- The counting of `retain`. -/
def RefreshState.join (state : RefreshState Request) (request : Request) : RefreshState Request :=
  let state := if state.active = 0 then
    { state with request := some request, idleDeadline := none } else state
  { state with active := state.active + 1 }

/-- `retain`, with whether it spawns a task. -/
def RefreshState.retain (state : RefreshState Request) (request : Request) :
    RefreshState Request × Bool :=
  let state := state.join request
  if state.running then (state, false) else ({ state with running := true }, true)

/-- `SessionInner::drop`. -/
def RefreshState.release (state : RefreshState Request) (now : Nat) : RefreshState Request :=
  let state := { state with active := state.active - 1 }
  if state.active = 0 then { state with idleDeadline := some (now + monitorIdleGrace) } else state

/-- What a turn of `run` does next. -/
inductive Next (Request : Type) where
  | exit
  | idle
  | refresh (request : Request)
  | panic

/-- The locked part of a turn of `run`, with the two readings of the clock that decide. -/
def RefreshState.check (state : RefreshState Request) (now1 now2 : Nat) :
    RefreshState Request × Next Request :=
  if state.active = 0 then
    let deadline := state.idleDeadline.getD (now1 + monitorIdleGrace)
    if deadline ≤ now2 then
      ({ state with running := false, request := none, idleDeadline := none }, .exit)
    else ({ state with idleDeadline := some deadline }, .idle)
  else
    -- `expect("active JWT monitor has request")`
    (state, state.request.elim .panic .refresh)

/-! ## The machine -/

/-- Where a task is: at the lock, asleep in the grace period, asleep until the next refresh
    or in it, or stopped by a failed expectation. -/
inductive Task (Request : Type) where
  | checking
  | idle
  | waiting (request : Request)
  | fetching (request : Request)
  | panicked

structure State (Session Request : Type) where
  shared : RefreshState Request
  sessions : List Session
  tasks : List (Task Request)

inductive Label (Session Request : Type) where
  | retain (session : Session) (request : Request)
  | release (session : Session) (now : Nat)
  | check (task now1 now2 : Nat)
  | expire (task : Nat)
  | notified (task : Nat)
  | fetched (task : Nat)

def State.initial : State Session Request := ⟨⟨0, false, none, none⟩, [], []⟩

/-- A task at the lock. -/
def Task.next (next : Next Request) (tasks : List (Task Request)) (i : Nat) :
    List (Task Request) :=
  match next with
  | .exit => tasks.eraseIdx i
  | .idle => tasks.set i .idle
  | .refresh request => tasks.set i (.waiting request)
  | .panic => tasks.set i .panicked

/-- A task whose sleep or fetch ends. -/
def Task.woken (expired : Bool) : Task Request → Option (Task Request)
  | .idle => some .checking
  | .waiting request => some (if expired then .fetching request else .checking)
  | _ => none

def Task.afterFetch : Task Request → Option (Task Request)
  | .fetching _ => some .checking
  | _ => none

/-- A step of one task outside the lock. -/
def State.move (s : State Session Request) (i : Nat) (f : Task Request → Option (Task Request)) :
    Option (State Session Request) :=
  (s.tasks[i]?.bind f).map fun task => { s with tasks := s.tasks.set i task }

variable [DecidableEq Session]

def step (s : State Session Request) : Label Session Request → Option (State Session Request)
  | .retain session request =>
    if session ∈ s.sessions then none
    else
      let retained := s.shared.retain request
      some ⟨retained.1, session :: s.sessions,
        if retained.2 then s.tasks ++ [.checking] else s.tasks⟩
  | .release session now =>
    if session ∈ s.sessions then
      some ⟨s.shared.release now, s.sessions.erase session, s.tasks⟩
    else none
  | .check i now1 now2 =>
    match s.tasks[i]? with
    | some .checking =>
      let checked := s.shared.check now1 now2
      some ⟨checked.1, s.sessions, Task.next checked.2 s.tasks i⟩
    | _ => none
  | .expire i => s.move i (Task.woken true)
  | .notified i => s.move i (Task.woken false)
  | .fetched i => s.move i Task.afterFetch

def machine : Machine (State Session Request) (Label Session Request) := ⟨step⟩

/-! ## What every step keeps -/

def Task.Sound : Task Request → Prop
  | .panicked => False
  | _ => True

structure Inv (s : State Session Request) : Prop where
  count : s.shared.active = s.sessions.length
  tasks : s.tasks.length = if s.shared.running then 1 else 0
  served : 0 < s.shared.active → s.shared.running = true ∧ s.shared.request.isSome = true
  sound : ∀ task ∈ s.tasks, task.Sound

variable {s s' : State Session Request} {l : Label Session Request}

omit [DecidableEq Session] in
theorem inv_initial : Inv (State.initial : State Session Request) :=
  ⟨rfl, rfl, by simp [State.initial], by simp [State.initial]⟩

theorem join_active (state : RefreshState Request) (request : Request) :
    (state.join request).active = state.active + 1 := by
  unfold RefreshState.join
  by_cases h : state.active = 0 <;> simp [h]

theorem join_running (state : RefreshState Request) (request : Request) :
    (state.join request).running = state.running := by
  unfold RefreshState.join
  by_cases h : state.active = 0 <;> simp [h]

theorem join_request (state : RefreshState Request) (request : Request)
    (h : 0 < state.active → state.request.isSome = true) :
    (state.join request).request.isSome = true := by
  unfold RefreshState.join
  by_cases h0 : state.active = 0
  · simp [h0]
  · simpa [h0] using h (Nat.pos_of_ne_zero h0)

omit [DecidableEq Session] in
/-- A retained session finds a task or starts the only one. -/
theorem Inv.retain (hinv : Inv s) (session : Session) (request : Request) :
    Inv (⟨(s.shared.retain request).1, session :: s.sessions,
      if (s.shared.retain request).2 then s.tasks ++ [.checking] else s.tasks⟩ :
        State Session Request) := by
  have hactive := join_active s.shared request
  have hrequest := join_request s.shared request fun h => (hinv.served h).2
  have htasks := hinv.tasks
  unfold RefreshState.retain
  by_cases hrunning : s.shared.running = true
  · simp only [join_running, hrunning, if_true]
    rw [if_pos hrunning] at htasks
    refine ⟨by simp [hactive, hinv.count], ?_, fun _ => ⟨?_, hrequest⟩, hinv.sound⟩
    · simp [join_running, hrunning, htasks]
    · rw [join_running, hrunning]
  · simp only [join_running, hrunning]
    rw [if_neg hrunning] at htasks
    refine ⟨by simp [hactive, hinv.count], by simp [htasks], fun _ => ⟨rfl, hrequest⟩, ?_⟩
    intro task htask
    have htask : task = .checking := by
      simpa [List.length_eq_zero_iff.mp htasks] using htask
    rw [htask]
    trivial

theorem Inv.release (hinv : Inv s) {session : Session} (hsession : session ∈ s.sessions)
    (now : Nat) : Inv (⟨s.shared.release now, s.sessions.erase session, s.tasks⟩ :
      State Session Request) := by
  have hcount : s.shared.active - 1 = (s.sessions.erase session).length := by
    rw [List.length_erase_of_mem hsession, hinv.count]
  -- neither flag nor request changes, and the counter does not grow
  have hserved : 0 < s.shared.active - 1 →
      s.shared.running = true ∧ s.shared.request.isSome = true := by
    intro h
    exact hinv.served (by omega)
  unfold RefreshState.release
  by_cases h0 : s.shared.active - 1 = 0
  · simp only [h0, if_true]
    exact ⟨h0 ▸ hcount, hinv.tasks, fun h => absurd h (by simp), hinv.sound⟩
  · simp only [h0, if_false]
    exact ⟨hcount, hinv.tasks, hserved, hinv.sound⟩

omit [DecidableEq Session] in
theorem sound_set (hinv : Inv s) (i : Nat) {task : Task Request} (htask : task.Sound) :
    ∀ t ∈ s.tasks.set i task, t.Sound := by
  intro t ht
  rcases List.mem_or_eq_of_mem_set ht with ht | rfl
  · exact hinv.sound t ht
  · exact htask

omit [DecidableEq Session] in
/-- The task leaves only when nobody is served, and takes the flag with it. -/
theorem Inv.check (hinv : Inv s) {i : Nat} (hi : s.tasks[i]? = some .checking) (now1 now2 : Nat) :
    Inv (⟨(s.shared.check now1 now2).1, s.sessions,
      Task.next (s.shared.check now1 now2).2 s.tasks i⟩ : State Session Request) := by
  have hlt : i < s.tasks.length := (List.getElem?_eq_some_iff.mp hi).1
  have hlength := hinv.tasks
  unfold RefreshState.check
  by_cases h0 : s.shared.active = 0
  · rw [if_pos h0]
    by_cases hover : s.shared.idleDeadline.getD (now1 + monitorIdleGrace) ≤ now2
    · simp only [hover, if_true]
      refine ⟨hinv.count, ?_, fun h => absurd h (by simp [h0]), ?_⟩
      · show (s.tasks.eraseIdx i).length = 0
        split at hlength
        · rw [List.length_eraseIdx_of_lt hlt, hlength]
        · omega
      · intro task htask
        exact hinv.sound task (List.mem_of_mem_eraseIdx htask)
    · simp only [hover, if_false]
      refine ⟨hinv.count, ?_, fun h => absurd h (by simp [h0]), sound_set hinv i trivial⟩
      simpa [Task.next] using hlength
  · rw [if_neg h0]
    obtain ⟨hrunning, hrequest⟩ := hinv.served (Nat.pos_of_ne_zero h0)
    obtain ⟨request, hrequest⟩ := Option.isSome_iff_exists.mp hrequest
    simp only [hrequest, Option.elim_some]
    refine ⟨hinv.count, ?_, hinv.served, sound_set hinv i trivial⟩
    simpa [Task.next] using hlength

omit [DecidableEq Session] in
theorem Inv.move (hinv : Inv s) {i : Nat} {f : Task Request → Option (Task Request)}
    (hf : ∀ task task', f task = some task' → task'.Sound) (h : s.move i f = some s') : Inv s' := by
  obtain ⟨task, htask, rfl⟩ := Option.map_eq_some_iff.mp h
  obtain ⟨before, -, htask⟩ := Option.bind_eq_some_iff.mp htask
  refine ⟨hinv.count, ?_, hinv.served, sound_set hinv i (hf before task htask)⟩
  rw [List.length_set]
  exact hinv.tasks

theorem sound_of_woken {expired : Bool} {task task' : Task Request}
    (h : task.woken expired = some task') : task'.Sound := by
  cases task <;> cases expired <;> simp [Task.woken] at h <;> rw [← h] <;> trivial

theorem sound_of_afterFetch {task task' : Task Request} (h : task.afterFetch = some task') :
    task'.Sound := by
  cases task <;> simp [Task.afterFetch] at h
  rw [← h]
  trivial

theorem inv_step (hinv : Inv s) (h : step s l = some s') : Inv s' := by
  cases l with
  | retain session request =>
    obtain ⟨-, h⟩ := Option.ite_none_left_eq_some.mp h
    rw [← Option.some.inj h]
    exact hinv.retain session request
  | release session now =>
    obtain ⟨hsession, h⟩ := Option.ite_none_right_eq_some.mp h
    rw [← Option.some.inj h]
    exact hinv.release hsession now
  | check i now1 now2 =>
    simp only [step] at h
    split at h
    · next hi =>
      rw [← Option.some.inj h]
      exact hinv.check hi now1 now2
    · cases h
  | expire i => exact hinv.move (fun _ _ => sound_of_woken) h
  | notified i => exact hinv.move (fun _ _ => sound_of_woken) h
  | fetched i => exact hinv.move (fun _ _ => sound_of_afterFetch) h

/-- **One monitor**: in every run the counter is the number of retained sessions, at most one
    task runs, with a session retained there is a task and a request to refresh with, and the
    expectation of that request does not fail. -/
theorem refresh_monitor_singleton {ls : List (Label Session Request)}
    (hrun : machine.run State.initial ls = some s) :
    s.shared.active = s.sessions.length ∧ s.tasks.length ≤ 1 ∧
      (s.sessions ≠ [] → (∃ task, s.tasks = [task]) ∧ ∃ request, s.shared.request = some request) ∧
      .panicked ∉ s.tasks := by
  have hinv : Inv s :=
    @Machine.run_invariant _ _ machine Inv (fun _ _ _ hs h => inv_step hs h) _ _ _ inv_initial hrun
  have htasks := hinv.tasks
  refine ⟨hinv.count, by split at htasks <;> omega, ?_, fun hmem => hinv.sound _ hmem⟩
  intro hsessions
  have hactive : 0 < s.shared.active := by
    rw [hinv.count]
    exact List.length_pos_iff.mpr hsessions
  obtain ⟨hrunning, hrequest⟩ := hinv.served hactive
  rw [if_pos hrunning] at htasks
  exact ⟨List.length_eq_one_iff.mp htasks, Option.isSome_iff_exists.mp hrequest⟩

/-- A session that comes in the grace period behind the last one. -/
theorem refresh_monitor_singleton_grace :
    ∃ s, machine.run State.initial
        [.retain 1 "k", .check 0 0 0, .release 1 5, .notified 0, .check 0 6 6, .retain 2 "k",
          .notified 0, .check 0 7 7] = some s ∧ s.shared.active = s.sessions.length := by
  refine ⟨_, rfl, ?_⟩
  exact (@refresh_monitor_singleton _ _ _ _
    [.retain 1 "k", .check 0 0 0, .release 1 5, .notified 0, .check 0 6 6, .retain 2 "k",
      .notified 0, .check 0 7 7] rfl).1

end RefreshMonitor
