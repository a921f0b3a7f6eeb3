import Hangang.Framework.Bytes
import Hangang.Framework.Threads
import Mathlib.Data.Fin.Basic

/-! # Exchanges with Policy Workers

    `policy::PolicyPool`: worker processes that evaluate scripts, one in each slot. A dispatch
    takes the worker out of a slot, writes a request to it and reads a frame back; only after a
    complete and fitting response the worker is put back.

    A process is modelled by what went through its pipes: the requests that were written, each
    with the thread that wrote it, and one reply to each of them, in order. What a reply holds is
    up to the process.

    * **The threads**: dispatches and shutdowns, taken apart at their awaits, where they can be
      cancelled.
    * **The outline**: a worker is in its slot, with nothing left in its pipes, or belongs to the
      thread that holds the slot's lock.
    * **Pairing**, and what holds once a shutdown has returned. -/

open Bytes

namespace Policy

/-- `MAX_FRAME_BYTES`. -/
def maxFrameBytes : Nat := 128 * 1024

/-- `RESTART_COOLDOWN`, in milliseconds. -/
def restartCooldown : Nat := 25

/-- `WorkerRequest`; the data is what `serde_json` makes of the input. -/
inductive Request where
  | evaluate (input : Bytes)
  | transform (input : Bytes)
  | validate (script : Bytes)
  | shutdown
  deriving DecidableEq

inductive Response where
  | decision (data : Bytes)
  | transformed (body : Bytes)
  | validated
  | error (message : Bytes)
  deriving DecidableEq

/-- The JSON library. -/
structure Codec where
  encode : Request → Bytes
  decode : Bytes → Option Response

def responseMatches : Request → Response → Bool
  | .evaluate _, .decision _ => true
  | .evaluate _, .error _ => true
  | .transform _, .transformed _ => true
  | .transform _, .error _ => true
  | .validate _, .validated => true
  | .validate _, .error _ => true
  | .shutdown, .validated => true
  | _, _ => false

/-! ## Workers and slots -/

/-- A worker process of a pool with `n` slots. -/
structure Worker (n : Nat) where
  /-- The slot it was started for. -/
  slot : Fin n
  /-- The requests that were written completely, with the threads that wrote them. -/
  requests : List (Nat × Request)
  /-- The frames that the process has written. -/
  replies : List Bytes
  /-- How many of the frames were read. -/
  read : Nat
  deriving DecidableEq

/-- Every request was answered, and every answer was read. -/
def Worker.Settled {n : Nat} (w : Worker n) : Prop :=
  w.replies.length = w.requests.length ∧ w.read = w.requests.length

structure Slot (n : Nat) where
  worker : Option (Worker n) := none
  retryAfter : Option Nat := none
  /-- The thread that holds the slot's mutex. -/
  holder : Option Nat := none
  deriving DecidableEq

def Slot.unlocked {n : Nat} (slot : Slot n) : Slot n := { slot with holder := none }

def Slot.isCoolingDown {n : Nat} (slot : Slot n) (now : Nat) : Bool :=
  slot.retryAfter.any (now < ·)

structure Shared (n : Nat) where
  slots : Fin n → Slot n
  nextSlot : Nat
  /-- The flag `closed`, with the thread that set it. -/
  closed : Option Nat
  /-- How many slots the shutdown has gone through. -/
  drained : Nat

def initial (n : Nat) : Shared n := ⟨fun _ => {}, 0, none, 0⟩

def Shared.put {n : Nat} (s : Shared n) (i : Fin n) (slot : Slot n) : Shared n :=
  { s with slots := Function.update s.slots i slot }

/-! ## The threads -/

inductive Job where
  | dispatch (request : Request)
  | shutdown
  deriving DecidableEq

/-- The request that a thread writes to a worker. -/
def Job.request : Job → Request
  | .dispatch request => request
  | .shutdown => .shutdown

inductive Failure where
  | shutDown
  | noWorkers
  | saturated
  | restarting
  | spawn
  | inspect
  | protocol
  | wrongKind
  | timedOut
  deriving DecidableEq

inductive Outcome (n : Nat) where
  | failed (failure : Failure)
  /-- The response, and the worker as it was put back. -/
  | replied (response : Response) (worker : Worker n)
  /-- A shutdown that found the pool closed. -/
  | alreadyClosed
  /-- The shutdown that closed the pool has gone through all slots. -/
  | drained
  deriving DecidableEq

/-- How far `transact` is. -/
inductive Progress where
  | writing
  | reading
  | payload
  deriving DecidableEq

inductive Phase (n : Nat) where
  | entering
  /-- The loop of `dispatch`. -/
  | trying (start offset : Nat)
  | locked (start offset : Nat) (slot : Fin n)
  /-- The loop of `shutdown`: it waits for the lock of a slot. -/
  | draining (next : Nat)
  | exchanging (slot : Fin n) (worker : Worker n) (progress : Progress)
  /-- The process is killed, or waited for; then a dispatch returns the failure. -/
  | disposing (slot : Fin n) (worker : Worker n) (failure : Failure)
  | returned (outcome : Outcome n)
  | cancelled
  deriving DecidableEq

structure Thread (n : Nat) where
  job : Job
  phase : Phase n
  deriving DecidableEq

inductive ProcessState where
  | running
  | exited
  | unknown

/-- What `call` finds out: three readings of the clock, `try_wait` and whether a process can be
    started. -/
structure Probe where
  now : Nat
  process : ProcessState
  later : Nat
  spawned : Bool
  after : Nat

inductive Choice where
  | go
  | call (probe : Probe)
  | write
  /-- The process answers the first request that it has not answered. -/
  | answer (reply : Bytes)
  | readLength
  | readPayload
  /-- A pipe fails. -/
  | fail
  | timeout
  | disposed
  /-- The future is dropped at an await. -/
  | cancel

variable {n : Nat} (codec : Codec) (tid : Nat) (s : Shared n)

def enter : Job → Shared n × Phase n
  | .dispatch _ =>
    if s.closed.isSome then (s, .returned (.failed .shutDown))
    else if n = 0 then (s, .returned (.failed .noWorkers))
    else ({ s with nextSlot := (s.nextSlot + 1) % 2 ^ 64 }, .trying (s.nextSlot % n) 0)
  | .shutdown =>
    if s.closed.isSome then (s, .returned .alreadyClosed)
    else ({ s with closed := some tid }, .draining 0)

def tryLock (start offset : Nat) : Shared n × Phase n :=
  if h : offset < n then
    let i : Fin n := ⟨(start + offset) % n, Nat.mod_lt _ (Nat.zero_lt_of_lt h)⟩
    if (s.slots i).holder.isSome then (s, .trying start (offset + 1))
    else (s.put i { s.slots i with holder := some tid }, .locked start offset i)
  else (s, .returned (.failed .saturated))

/-- The worker that `take_running` returns; a worker that it does not return is dropped. -/
def takeRunning (i : Fin n) (slot : Slot n) (probe : Probe) : Except Failure (Worker n) :=
  match slot.worker, probe.process with
  | some w, .running => .ok w
  | some _, .unknown => .error .inspect
  | _, _ =>
    if slot.isCoolingDown probe.later then .error .restarting
    else if probe.spawned then .ok ⟨i, [], [], 0⟩
    else .error .spawn

/-- The rest of an iteration of `dispatch` under the lock, up to the first await of `call`. -/
def call (start offset : Nat) (i : Fin n) (probe : Probe) : Shared n × Phase n :=
  if s.closed.isSome then (s.put i (s.slots i).unlocked, .returned (.failed .shutDown))
  else if (s.slots i).isCoolingDown probe.now then
    (s.put i (s.slots i).unlocked, .trying start (offset + 1))
  else match takeRunning i (s.slots i) probe with
    | .error failure =>
      (s.put i ⟨none, some (probe.after + restartCooldown), none⟩, .returned (.failed failure))
    | .ok w =>
      (s.put i ⟨none, some (probe.after + restartCooldown), some tid⟩, .exchanging i w .writing)

/-- What is done with a response. -/
def received (job : Job) (i : Fin n) (w : Worker n) (response : Response) : Shared n × Phase n :=
  match job with
  | .dispatch request =>
    if responseMatches request response then
      (s.put i ⟨some w, none, none⟩, .returned (.replied response w))
    else (s, .disposing i w .wrongKind)
  | .shutdown => (s, .disposing i w .wrongKind)

def exchange (job : Job) (i : Fin n) (w : Worker n) (progress : Progress) (choice : Choice) :
    Option (Shared n × Phase n) :=
  match choice with
  | .write =>
    if progress = .writing then
      if (codec.encode job.request).length ≤ maxFrameBytes then
        some (s, .exchanging i { w with requests := w.requests ++ [(tid, job.request)] } .reading)
      else some (s, .disposing i w .protocol)
    else none
  | .answer reply =>
    if w.replies.length < w.requests.length then
      some (s, .exchanging i { w with replies := w.replies ++ [reply] } progress)
    else none
  | .readLength =>
    if progress = .reading then
      w.replies[w.read]?.map fun frame =>
        if frame.length = 0 ∨ maxFrameBytes < frame.length then (s, .disposing i w .protocol)
        else (s, .exchanging i w .payload)
    else none
  | .readPayload =>
    if progress = .payload then
      w.replies[w.read]?.map fun frame =>
        match codec.decode frame with
        | none => (s, .disposing i w .protocol)
        | some response => received s job i { w with read := w.read + 1 } response
    else none
  | .fail => some (s, .disposing i w .protocol)
  | .timeout => some (s, .disposing i w .timedOut)
  -- the worker is dropped with the future, and killed
  | .cancel => some (s.put i (s.slots i).unlocked, .cancelled)
  | _ => none

def dispose (job : Job) (i : Fin n) (failure : Failure) (choice : Choice) :
    Option (Shared n × Phase n) :=
  match choice with
  | .disposed =>
    match job with
    | .dispatch _ => some (s.put i (s.slots i).unlocked, .returned (.failed failure))
    | .shutdown => some ({ s.put i (s.slots i).unlocked with drained := i + 1 }, .draining (i + 1))
  | .cancel => some (s.put i (s.slots i).unlocked, .cancelled)
  | _ => none

def drain (next : Nat) (choice : Choice) : Option (Shared n × Phase n) :=
  match choice with
  | .go =>
    if h : next < n then
      if (s.slots ⟨next, h⟩).holder.isSome then none
      else match (s.slots ⟨next, h⟩).worker with
        | none => some ({ s with drained := next + 1 }, .draining (next + 1))
        | some w =>
          some (s.put ⟨next, h⟩ { s.slots ⟨next, h⟩ with worker := none, holder := some tid },
            .exchanging ⟨next, h⟩ w .writing)
    else some (s, .returned .drained)
  | .cancel => some (s, .cancelled)
  | _ => none

def advancePhase (job : Job) (phase : Phase n) (choice : Choice) : Option (Shared n × Phase n) :=
  match phase, choice with
  | .entering, .go => some (enter tid s job)
  | .trying start offset, .go => some (tryLock tid s start offset)
  | .locked start offset i, .call probe => some (call tid s start offset i probe)
  | .draining next, choice => drain tid s next choice
  | .exchanging i w progress, choice => exchange codec tid s job i w progress choice
  | .disposing i _ failure, choice => dispose s job i failure choice
  | _, _ => none

/-- A worker in its slot answers what it was asked. -/
def answerIdle (i : Fin n) (reply : Bytes) : Option (Shared n) :=
  (s.slots i).worker.bind fun w =>
    if w.replies.length < w.requests.length then
      some (s.put i { s.slots i with worker := some { w with replies := w.replies ++ [reply] } })
    else none

def program (n : Nat) : Program (Shared n) (Thread n) Job Choice (Fin n × Bytes) where
  start job := some ⟨job, .entering⟩
  advance tid s th choice :=
    (advancePhase codec tid s th.job th.phase choice).map fun next => (next.1, ⟨th.job, next.2⟩)
  tick s env := answerIdle s env.1 env.2

/-! ## Assertions -/

variable {codec tid s}

structure Glob (s : Shared n) : Prop where
  idle : ∀ i w, (s.slots i).worker = some w → w.slot = i ∧ w.Settled ∧ s.drained ≤ i
  open_drained : s.closed = none → s.drained = 0
  drained_le : s.drained ≤ n

/-- What a thread with a worker in hand knows. -/
structure Owns (tid : Nat) (s : Shared n) (job : Job) (i : Fin n) (w : Worker n) : Prop where
  holder : (s.slots i).holder = some tid
  empty : (s.slots i).worker = none
  slot : w.slot = i
  undrained : s.drained ≤ i
  closer : job = .shutdown → s.closed = some tid ∧ s.drained = i
  single : w.requests.length ≤ w.replies.length + 1

/-- The thread's request is the last one, and all replies before it were read. -/
def Asked (tid : Nat) (request : Request) (w : Worker n) : Prop :=
  ∃ old, w.requests = old ++ [(tid, request)] ∧ w.read = old.length ∧
    old.length ≤ w.replies.length ∧ w.replies.length ≤ old.length + 1

def Serving (tid : Nat) (request : Request) (w : Worker n) : Progress → Prop
  | .writing => w.Settled
  | .reading => Asked tid request w
  | .payload => Asked tid request w

/-- The response is the worker's reply to the request of the thread. -/
def Paired (codec : Codec) (tid : Nat) (request : Request) (response : Response) (w : Worker n) :
    Prop :=
  ∃ (k : Nat) (frame : Bytes), w.requests[k]? = some (tid, request) ∧ w.replies[k]? = some frame ∧
    codec.decode frame = some response ∧ responseMatches request response = true

def Ok (codec : Codec) (tid : Nat) (s : Shared n) (job : Job) : Phase n → Prop
  | .entering => True
  | .trying _ _ => job ≠ .shutdown
  | .locked _ _ i => job ≠ .shutdown ∧ (s.slots i).holder = some tid
  | .draining next => job = .shutdown ∧ s.closed = some tid ∧ s.drained = next
  | .exchanging i w progress => Owns tid s job i w ∧ Serving tid job.request w progress
  | .disposing i w _ => Owns tid s job i w
  | .returned (.replied response w) => Paired codec tid job.request response w
  | .returned .drained => s.drained = n
  | .returned _ => True
  | .cancelled => True

/-- What a step of the thread leaves to the other threads. -/
structure Spares (tid : Nat) (s s' : Shared n) : Prop where
  slots : ∀ i other, other ≠ tid → (s.slots i).holder = some other → s'.slots i = s.slots i
  closed : ∀ other, s.closed = some other → s'.closed = some other
  drained : s'.drained = s.drained ∨ s.closed = some tid ∧ ∃ i : Fin n, s.drained = i ∧
    s'.drained = i + 1 ∧ ∀ other, other ≠ tid → (s.slots i).holder ≠ some other

theorem Spares.refl (tid : Nat) (s : Shared n) : Spares tid s s :=
  ⟨fun _ _ _ _ => rfl, fun _ h => h, .inl rfl⟩

variable {i : Fin n} {job : Job} {w : Worker n} {phase : Phase n} {choice : Choice}
  {next : Shared n × Phase n}

/-- **Non-interference**: a worker that is taken out of its slot stays with its thread. -/
theorem Owns.spares {s' : Shared n} {other : Nat} (h : Owns other s job i w) (hne : other ≠ tid)
    (hs : Spares tid s s') :
    Owns other s' job i w := by
  have hslot := hs.slots i other hne h.holder
  have hdrained : s'.drained = s.drained ∨ s.closed = some tid ∧ s'.drained ≤ i := by
    rcases hs.drained with heq | ⟨hclosed, j, hj, hj', hfree⟩
    · exact .inl heq
    · have hij : i ≠ j := by
        rintro rfl
        exact hfree other hne h.holder
      have hle := h.undrained
      have : (i : Nat) ≠ j := fun heq => hij (Fin.ext heq)
      exact .inr ⟨hclosed, by omega⟩
  exact {
    holder := hslot ▸ h.holder
    empty := hslot ▸ h.empty
    slot := h.slot
    undrained := by
      rcases hdrained with heq | ⟨-, hle⟩
      · exact heq ▸ h.undrained
      · exact hle
    closer := by
      intro hjob
      obtain ⟨hclosed, hi⟩ := h.closer hjob
      rcases hdrained with heq | ⟨hclosed', -⟩
      · exact ⟨hs.closed other hclosed, heq.trans hi⟩
      · exact absurd (Option.some.inj (hclosed.symm.trans hclosed')) hne
    single := h.single }

theorem Ok.spares {s' : Shared n} {other : Nat} (h : Ok codec other s job phase) (hne : other ≠ tid)
    (hs : Spares tid s s') :
    Ok codec other s' job phase := by
  cases phase with
  | locked start offset i => exact ⟨h.1, hs.slots i other hne h.2 ▸ h.2⟩
  | draining next =>
    refine ⟨h.1, hs.closed other h.2.1, ?_⟩
    rcases hs.drained with heq | ⟨hclosed, -⟩
    · exact heq.trans h.2.2
    · exact absurd (Option.some.inj (h.2.1.symm.trans hclosed)) hne
  | exchanging i w progress => exact ⟨h.1.spares hne hs, h.2⟩
  | disposing i w failure => exact Owns.spares h hne hs
  | returned outcome =>
    cases outcome with
    | drained =>
      rcases hs.drained with heq | ⟨-, i, hi, -⟩
      · exact heq.trans h
      · have hall : s.drained = n := h
        omega
    | _ => exact h
  | _ => exact h

/-! ## Steps -/

/-- What is to be shown of a step. -/
structure Post (codec : Codec) (tid : Nat) (s : Shared n) (job : Job)
    (next : Shared n × Phase n) : Prop where
  glob : Glob next.1
  ok : Ok codec tid next.1 job next.2
  spares : Spares tid s next.1

theorem Post.same (hs : Glob s) (hok : Ok codec tid s job phase) :
    Post codec tid s job (s, phase) :=
  ⟨hs, hok, Spares.refl tid s⟩

@[simp] theorem put_slots_self (s : Shared n) (i : Fin n) (slot : Slot n) :
    (s.put i slot).slots i = slot := by
  simp [Shared.put]

theorem put_slots_ne (s : Shared n) {j : Fin n} (slot : Slot n) (h : j ≠ i) :
    (s.put i slot).slots j = s.slots j := by
  simp [Shared.put, h]

theorem Glob.put {i : Fin n} {slot : Slot n} (hs : Glob s)
    (hslot : ∀ w, slot.worker = some w → w.slot = i ∧ w.Settled ∧ s.drained ≤ i) :
    Glob (s.put i slot) where
  idle j w hw := by
    by_cases hj : j = i
    · subst hj
      rw [put_slots_self] at hw
      exact hslot w hw
    · rw [put_slots_ne s slot hj] at hw
      exact hs.idle j w hw
  open_drained := hs.open_drained
  drained_le := hs.drained_le

theorem Spares.put {i : Fin n} {slot : Slot n}
    (h : ∀ other, other ≠ tid → (s.slots i).holder ≠ some other) : Spares tid s (s.put i slot) where
  slots j other hne hj := by
    apply put_slots_ne
    rintro rfl
    exact h other hne hj
  closed _ h := h
  drained := .inl rfl

theorem not_held (h : (s.slots i).holder = some tid) :
    ∀ other, other ≠ tid → (s.slots i).holder ≠ some other :=
  fun _ hne h' => hne (Option.some.inj (h'.symm.trans h))

theorem free_of_not_isSome (h : ¬ (s.slots i).holder.isSome = true) :
    ∀ other, other ≠ tid → (s.slots i).holder ≠ some other := by
  intro other _ hother
  rw [hother] at h
  exact h rfl

/-- A lock that is given back, with an empty slot or the worker that was in it. -/
theorem Post.unlock (hs : Glob s) (hi : (s.slots i).holder = some tid)
    (hok : Ok codec tid (s.put i (s.slots i).unlocked) job phase) :
    Post codec tid s job (s.put i (s.slots i).unlocked, phase) :=
  ⟨hs.put fun w hw => hs.idle i w hw, hok, Spares.put (not_held hi)⟩

theorem enter_post (hs : Glob s) : Post codec tid s job (enter tid s job) := by
  cases job with
  | dispatch request =>
    rw [enter]
    split
    · exact Post.same hs trivial
    · split
      · exact Post.same hs trivial
      · exact ⟨⟨hs.idle, hs.open_drained, hs.drained_le⟩, by simp [Ok],
          ⟨fun _ _ _ _ => rfl, fun _ h => h, .inl rfl⟩⟩
  | shutdown =>
    rw [enter]
    split
    · exact Post.same hs trivial
    · next hopen =>
      have hnone : s.closed = none := by simpa using hopen
      refine ⟨⟨hs.idle, fun h => absurd h (by simp), hs.drained_le⟩,
        ⟨rfl, rfl, hs.open_drained hnone⟩, fun _ _ _ _ => rfl, fun other h => ?_, .inl rfl⟩
      rw [hnone] at h
      simp at h

theorem tryLock_post {start offset : Nat} (hs : Glob s) (hjob : job ≠ .shutdown) :
    Post codec tid s job (tryLock tid s start offset) := by
  unfold tryLock
  split
  · dsimp only
    split
    · exact Post.same hs hjob
    · next hfree =>
      refine ⟨hs.put fun w hw => hs.idle _ w hw, ⟨hjob, ?_⟩, Spares.put (free_of_not_isSome hfree)⟩
      rw [put_slots_self]
  · exact Post.same hs trivial

theorem takeRunning_eq_ok {probe : Probe} (hs : Glob s)
    (h : takeRunning i (s.slots i) probe = .ok w) : w.slot = i ∧ w.Settled := by
  unfold takeRunning at h
  split at h
  · next w' hw' _ =>
    obtain rfl := Except.ok.inj h
    obtain ⟨hslot, hsettled, -⟩ := hs.idle i _ hw'
    exact ⟨hslot, hsettled⟩
  · simp at h
  · split at h
    · simp at h
    · split at h
      · obtain rfl := Except.ok.inj h
        exact ⟨rfl, rfl, rfl⟩
      · simp at h

theorem call_post {start offset : Nat} {probe : Probe} (hs : Glob s) (hjob : job ≠ .shutdown)
    (hi : (s.slots i).holder = some tid) :
    Post codec tid s job (call tid s start offset i probe) := by
  unfold call
  split
  · exact Post.unlock hs hi trivial
  · next hopen =>
    have hnone : s.closed = none := by simpa using hopen
    split
    · exact Post.unlock hs hi hjob
    · split
      · exact ⟨hs.put (by simp), trivial, Spares.put (not_held hi)⟩
      · next w hw =>
        obtain ⟨hslot, hsettled⟩ := takeRunning_eq_ok hs hw
        have hdrained : s.drained = 0 := hs.open_drained hnone
        refine ⟨hs.put (by simp), ⟨?_, hsettled⟩, Spares.put (not_held hi)⟩
        exact {
          holder := by rw [put_slots_self]
          empty := by rw [put_slots_self]
          slot := hslot
          undrained := by
            show s.drained ≤ i
            omega
          closer := fun h => absurd h hjob
          single := hsettled.1 ▸ Nat.le_succ _ }

theorem received_post {response : Response} {frame : Bytes} (hs : Glob s)
    (howns : Owns tid s job i w) (hasked : Asked tid job.request w)
    (hframe : w.replies[w.read]? = some frame) (hdecode : codec.decode frame = some response) :
    Post codec tid s job (received s job i { w with read := w.read + 1 } response) := by
  have howns' : Owns tid s job i { w with read := w.read + 1 } := { howns with }
  cases job with
  | shutdown => exact Post.same hs howns'
  | dispatch request =>
    rw [received.eq_def]
    dsimp only
    split
    · next hmatches =>
      obtain ⟨old, hrequests, hread, hle, hle'⟩ := hasked
      have hlt := (List.getElem?_eq_some_iff.mp hframe).1
      refine ⟨hs.put fun w' hw' => ?_, ⟨w.read, frame, ?_, hframe, hdecode, hmatches⟩,
        Spares.put (not_held howns.holder)⟩
      · obtain rfl := Option.some.inj hw'
        have hlength : w.requests.length = old.length + 1 := by simp [hrequests]
        refine ⟨howns.slot, ⟨?_, ?_⟩, howns.undrained⟩
        · show w.replies.length = w.requests.length
          omega
        · show w.read + 1 = w.requests.length
          omega
      · show w.requests[w.read]? = some (tid, request)
        rw [hrequests, hread]
        simp [Job.request]
    · exact Post.same hs howns'

theorem exchange_post {progress : Progress} (hs : Glob s) (howns : Owns tid s job i w)
    (hserving : Serving tid job.request w progress)
    (h : exchange codec tid s job i w progress choice = some next) :
    Post codec tid s job next := by
  cases choice with
  | write =>
    obtain ⟨hprogress, hwrite⟩ := Option.ite_none_right_eq_some.mp h
    subst hprogress
    split at hwrite
    · obtain rfl := Option.some.inj hwrite
      -- the one request that is now unanswered is the own one
      have hsettled : w.Settled := hserving
      refine Post.same hs ⟨{ howns with single := ?_ }, w.requests, rfl, hsettled.2,
        hsettled.1.ge, ?_⟩
      · show (w.requests ++ [(tid, job.request)]).length ≤ w.replies.length + 1
        simp [hsettled.1]
      · exact hsettled.1.le.trans (Nat.le_succ _)
    · exact Option.some.inj hwrite ▸ Post.same hs howns
  | answer reply =>
    obtain ⟨hlt, h⟩ := Option.ite_none_right_eq_some.mp h
    obtain rfl := Option.some.inj h
    have hlength : (w.replies ++ [reply]).length = w.replies.length + 1 := by simp
    have hasked : Asked tid job.request w →
        Asked tid job.request { w with replies := w.replies ++ [reply] } := by
      rintro ⟨old, hrequests, hread, hle, hle'⟩
      have hold : w.requests.length = old.length + 1 := by simp [hrequests]
      exact ⟨old, hrequests, hread, by show _ ≤ (w.replies ++ [reply]).length; omega,
        by show (w.replies ++ [reply]).length ≤ _; omega⟩
    refine Post.same hs ⟨{ howns with single := ?_ }, ?_⟩
    · show w.requests.length ≤ (w.replies ++ [reply]).length + 1
      have := howns.single
      omega
    · cases progress with
      | writing =>
        -- nothing is left to be answered
        have hsettled : w.Settled := hserving
        exact absurd hsettled.1 hlt.ne
      | reading => exact hasked hserving
      | payload => exact hasked hserving
  | readLength =>
    obtain ⟨rfl, h⟩ := Option.ite_none_right_eq_some.mp h
    obtain ⟨frame, -, rfl⟩ := Option.map_eq_some_iff.mp h
    split
    · exact Post.same hs howns
    · exact Post.same hs ⟨howns, hserving⟩
  | readPayload =>
    obtain ⟨rfl, h⟩ := Option.ite_none_right_eq_some.mp h
    obtain ⟨frame, hframe, rfl⟩ := Option.map_eq_some_iff.mp h
    split
    · exact Post.same hs howns
    · next response hdecode => exact received_post hs howns hserving hframe hdecode
  | fail => exact Option.some.inj h ▸ Post.same hs howns
  | timeout => exact Option.some.inj h ▸ Post.same hs howns
  | cancel => exact Option.some.inj h ▸ Post.unlock hs howns.holder trivial
  | _ => simp [exchange] at h

/-- The shutdown goes on to the next slot. -/
theorem drained_post {job : Job} {i : Fin n} {slots : Fin n → Slot n} (hs : Glob s)
    (hjob : job = .shutdown) (hclosed : s.closed = some tid) (hi : s.drained = i)
    (hfree : ∀ other, other ≠ tid → (s.slots i).holder ≠ some other)
    (hempty : (slots i).worker = none) (hother : ∀ j, j ≠ i → slots j = s.slots j) :
    Post codec tid s job ({ s with slots := slots, drained := i + 1 }, .draining (i + 1)) where
  glob := {
    idle := by
      intro j w hw
      have hj : j ≠ i := by
        rintro rfl
        exact absurd (hempty.symm.trans hw) (by simp)
      replace hw : (slots j).worker = some w := hw
      rw [hother j hj] at hw
      obtain ⟨hslot, hsettled, hle⟩ := hs.idle j w hw
      have : (j : Nat) ≠ i := fun heq => hj (Fin.ext heq)
      exact ⟨hslot, hsettled, by show i + 1 ≤ (j : Nat); omega⟩
    open_drained := fun h => absurd (hclosed.symm.trans h) (by simp)
    drained_le := i.isLt }
  ok := ⟨hjob, hclosed, rfl⟩
  spares := {
    slots := by
      intro j other hne hj
      apply hother
      rintro rfl
      exact hfree other hne hj
    closed := fun _ h => h
    drained := .inr ⟨hclosed, i, hi, rfl, hfree⟩ }

theorem dispose_post {failure : Failure} (hs : Glob s) (howns : Owns tid s job i w)
    (h : dispose s job i failure choice = some next) : Post codec tid s job next := by
  cases choice with
  | disposed =>
    cases job with
    | dispatch request => exact Option.some.inj h ▸ Post.unlock hs howns.holder trivial
    | shutdown =>
      obtain rfl := Option.some.inj h
      obtain ⟨hclosed, hi⟩ := howns.closer rfl
      refine drained_post hs rfl hclosed hi (not_held howns.holder) ?_ fun j hj => ?_
      · exact (congrArg Slot.worker (put_slots_self s i _)).trans howns.empty
      · exact put_slots_ne s _ hj
  | cancel => exact Option.some.inj h ▸ Post.unlock hs howns.holder trivial
  | _ => simp [dispose] at h

theorem drain_post {slot : Nat} (hs : Glob s) (hjob : job = .shutdown)
    (hclosed : s.closed = some tid) (hdrained : s.drained = slot)
    (h : drain tid s slot choice = some next) :
    Post codec tid s job next := by
  cases choice with
  | go =>
    unfold drain at h
    dsimp only at h
    split at h
    · next hlt =>
      obtain ⟨hfree, h⟩ := Option.ite_none_left_eq_some.mp h
      split at h
      · next hnone =>
        obtain rfl := Option.some.inj h
        -- an empty slot counts as drained, a full one gives its worker away first
        exact @drained_post n codec tid s job ⟨slot, hlt⟩ s.slots hs hjob hclosed hdrained
          (free_of_not_isSome hfree) hnone fun _ _ => rfl
      · next w hw =>
        obtain rfl := Option.some.inj h
        obtain ⟨hslot, hsettled, hle⟩ := hs.idle _ w hw
        refine ⟨hs.put (by simp), ⟨?_, hsettled⟩, Spares.put (free_of_not_isSome hfree)⟩
        exact {
          holder := by rw [put_slots_self]
          empty := by rw [put_slots_self]
          slot := hslot
          undrained := hle
          closer := fun _ => ⟨hclosed, hdrained⟩
          single := hsettled.1 ▸ Nat.le_succ _ }
    · next hlt =>
      obtain rfl := Option.some.inj h
      refine Post.same hs ?_
      show s.drained = n
      have := hs.drained_le
      omega
  | cancel => exact Option.some.inj h ▸ Post.same hs trivial
  | _ => simp [drain] at h

/-- **One step of a thread.** -/
theorem advancePhase_post (hs : Glob s) (hok : Ok codec tid s job phase)
    (h : advancePhase codec tid s job phase choice = some next) : Post codec tid s job next := by
  unfold advancePhase at h
  split at h
  · exact Option.some.inj h ▸ enter_post hs
  · exact Option.some.inj h ▸ tryLock_post hs hok
  · exact Option.some.inj h ▸ call_post hs hok.1 hok.2
  · exact drain_post hs hok.1 hok.2.1 hok.2.2 h
  · exact exchange_post hs hok.1 hok.2 h
  · exact dispose_post hs hok h
  · simp at h

theorem answerIdle_eq_none {reply : Bytes} (hs : Glob s) :
    answerIdle s i reply = none := by
  unfold answerIdle
  cases hw : (s.slots i).worker with
  | none => rfl
  | some w =>
    have hsettled := (hs.idle i w hw).2.1
    exact if_neg hsettled.1.not_lt

variable (n codec) in
/-- **The outline of the pool.** -/
def outline : (program codec n).Outline fun _ _ => true where
  Glob := Glob
  Ok tid s th := Ok codec tid s th.job th.phase
  start := by
    intro s job th tid _ h
    rw [← Option.some.inj h]
    trivial
  own := by
    intro tid s th choice s' th' hs hok _ h
    obtain ⟨next, hnext, heq⟩ := Option.map_eq_some_iff.mp h
    obtain ⟨rfl, rfl⟩ := Prod.mk.inj heq
    have hpost := advancePhase_post hs hok hnext
    exact ⟨hpost.glob, hpost.ok⟩
  interference := by
    intro tid i s th other choice s' th' hne hs hok _ hother h
    obtain ⟨next, hnext, heq⟩ := Option.map_eq_some_iff.mp h
    obtain ⟨rfl, rfl⟩ := Prod.mk.inj heq
    exact hother.spares hne (advancePhase_post hs hok hnext).spares
  tick := by
    intro s env s' hs h
    rw [show (program codec n).tick s env = answerIdle s env.1 env.2 from rfl,
      answerIdle_eq_none hs] at h
    simp at h

/-! ## Results -/

/-- The worker that a thread has in hand. -/
def Thread.worker? (th : Thread n) : Option (Worker n) :=
  match th.phase with
  | .exchanging _ w _ => some w
  | .disposing _ w _ => some w
  | _ => none

theorem owns_of_worker? {th : Thread n} (hok : Ok codec tid s th.job th.phase)
    (h : th.worker? = some w) : Owns tid s th.job w.slot w := by
  unfold Thread.worker? at h
  split at h
  · next i w' progress hphase =>
    obtain rfl := Option.some.inj h
    rw [hphase] at hok
    exact hok.1.slot ▸ hok.1
  · next i w' failure hphase =>
    obtain rfl := Option.some.inj h
    rw [hphase] at hok
    have howns : Owns tid s th.job i w' := hok
    exact howns.slot ▸ howns
  · simp at h

/-- **Pairing of responses**: in every run
    - a response that a dispatch returns was decoded from the frame with which its worker
      answered the request of that dispatch,
    - a worker that a thread has in hand is in no slot and in no other thread's hands, and at
      most one of its requests is unanswered; the worker of a slot has answered all of its own,
    - and once the shutdown that closed the pool has returned, no slot and no thread has a
      worker. -/
theorem responses_paired {events : List (Event Job Choice (Fin n × Bytes))}
    {pool : Pool (Shared n) (Thread n)}
    (hrun : (program codec n).machine.run ⟨initial n, []⟩ events = some pool) :
    (∀ (tid : Nat) (request : Request) (response : Response) (w : Worker n),
      pool.threads[tid]? = some ⟨.dispatch request, .returned (.replied response w)⟩ →
      Paired codec tid request response w) ∧
    (∀ (tid : Nat) (th : Thread n) (w : Worker n), pool.threads[tid]? = some th →
      th.worker? = some w → w.requests.length ≤ w.replies.length + 1 ∧
        (pool.shared.slots w.slot).worker = none ∧
        ∀ (tid' : Nat) (th' : Thread n) (w' : Worker n), pool.threads[tid']? = some th' →
          th'.worker? = some w' → w'.slot = w.slot → tid' = tid) ∧
    (∀ (i : Fin n) (w : Worker n), (pool.shared.slots i).worker = some w →
      w.slot = i ∧ w.replies.length = w.requests.length) ∧
    (∀ tid : Nat, pool.threads[tid]? = some ⟨.shutdown, .returned .drained⟩ →
      (∀ i, (pool.shared.slots i).worker = none) ∧
        ∀ (tid' : Nat) (th' : Thread n), pool.threads[tid']? = some th' → th'.worker? = none) := by
  -- nothing is assumed about the interleaving
  rw [← Program.under_true] at hrun
  have hinitial : Glob (initial n) :=
    ⟨fun i w h => absurd h (by simp [initial]), fun _ => rfl, Nat.zero_le n⟩
  have hholds := (outline n codec).holds_run ((outline n codec).holds_initial hinitial) hrun
  have hs : Glob pool.shared := hholds.glob
  have hok (tid : Nat) (th : Thread n) (h : pool.threads[tid]? = some th) :
      Ok codec tid pool.shared th.job th.phase := hholds.ok tid th h
  refine ⟨?_, ?_, ?_, ?_⟩
  · intro tid request response w hth
    exact hok tid _ hth
  · intro tid th w hth hw
    -- the slot names its holder, so that no other thread can have its worker
    have howns := owns_of_worker? (hok tid th hth) hw
    refine ⟨howns.single, howns.empty, fun tid' th' w' hth' hw' hslot => ?_⟩
    have howns' := owns_of_worker? (hok tid' th' hth') hw'
    rw [hslot] at howns'
    exact Option.some.inj (howns'.holder.symm.trans howns.holder)
  · intro i w hw
    obtain ⟨hslot, hsettled, -⟩ := hs.idle i w hw
    exact ⟨hslot, hsettled.1⟩
  · intro tid hth
    -- the shutdown has gone past every slot; a worker that is left would be beyond the last
    have hdrained : pool.shared.drained = n := hok tid _ hth
    constructor
    · intro i
      by_contra hsome
      obtain ⟨w, hw⟩ := Option.ne_none_iff_exists'.mp hsome
      have hle := (hs.idle i w hw).2.2
      have hlt := i.isLt
      omega
    · intro tid' th' hth'
      by_contra hsome
      obtain ⟨w, hw⟩ := Option.ne_none_iff_exists'.mp hsome
      have hle := (owns_of_worker? (hok tid' th' hth') hw).undrained
      have hlt := w.slot.isLt
      omega

namespace Sample

/-- A codec for which every frame is a decision. -/
def decisions : Codec := ⟨fun _ => [], fun frame => some (.decision frame)⟩

/-- A dispatch starts a worker and gets its answer; then two shutdowns are called. -/
def twoShutdowns : List (Event Job Choice (Fin 1 × Bytes)) :=
  [.start (.dispatch (.evaluate [])), .step 0 .go, .step 0 .go,
    .step 0 (.call ⟨0, .running, 0, true, 0⟩), .step 0 .write, .step 0 (.answer [1]),
    .step 0 .readLength, .step 0 .readPayload,
    .start .shutdown, .start .shutdown, .step 1 .go, .step 2 .go]

/-- The worker after its exchange. -/
def worker : Worker 1 := ⟨0, [(0, .evaluate [])], [[1]], 1⟩

/-- What is seen of a pool with one slot: the worker of the slot and the threads. -/
def view (pool : Pool (Shared 1) (Thread 1)) : Option (Worker 1) × List (Thread 1) :=
  ((pool.shared.slots 0).worker, pool.threads)

theorem run_twoShutdowns :
    ((program decisions 1).machine.run ⟨initial 1, []⟩ twoShutdowns).map view =
      some (some worker, [⟨.dispatch (.evaluate []), .returned (.replied (.decision [1]) worker)⟩,
        ⟨.shutdown, .draining 0⟩, ⟨.shutdown, .returned .alreadyClosed⟩]) := by
  decide +kernel

theorem responses_paired_twoShutdowns :
    ∃ pool, (program decisions 1).machine.run ⟨initial 1, []⟩ twoShutdowns = some pool ∧
      Paired decisions 0 (.evaluate []) (.decision [1]) worker := by
  obtain ⟨pool, hrun, hview⟩ := Option.map_eq_some_iff.mp run_twoShutdowns
  have hthreads := (Prod.mk.inj hview).2
  refine ⟨pool, hrun, (responses_paired hrun).1 0 (.evaluate []) (.decision [1]) worker ?_⟩
  rw [hthreads]
  rfl

/-- **A second shutdown does not wait**: it returns while the first one has not taken the worker
    of a slot. -/
theorem returned_with_a_worker :
    ∃ events pool, (program decisions 1).machine.run ⟨initial 1, []⟩ events = some pool ∧
      pool.threads[2]? = some ⟨.shutdown, .returned .alreadyClosed⟩ ∧
      (pool.shared.slots 0).worker = some worker := by
  obtain ⟨pool, hrun, hview⟩ := Option.map_eq_some_iff.mp run_twoShutdowns
  obtain ⟨hworker, hthreads⟩ := Prod.mk.inj hview
  refine ⟨twoShutdowns, pool, hrun, ?_, hworker⟩
  rw [hthreads]
  rfl

end Sample

end Policy
