import Hangang.Framework.IpAddr
import Hangang.Framework.Threads

/-! # Security Events

    `security_events::record` logs what the gateway has refused, without ever waiting for the
    log. A call passes a budget of ten events a second and hands its event to a bounded queue.
    A call that the budget stops, and one that finds the queue full, is counted instead, and
    the next event that is handed over carries the count.

    Requests and administrative releases have a budget and a queue each. The budget is under a
    lock, which is taken once before the event is sent and again if it could not be; in between,
    other calls go on. A call reads the clock before it has the lock.

    * **Moves**: what a call does to its side of the state, one lock section at a time.
    * **Windows**: the log of a side records, in the order of the lock, where a window begins and
      which calls it lets through.
    * **Accounting**: what the calls in progress still owe is part of the balance. -/

open Bytes

namespace SecurityEvents

/-- The two budgets, and the two queues. -/
inductive Channel where
  | requests
  | controls
  deriving DecidableEq, Repr

/-- The arguments of `record`. -/
structure Call where
  event : Bytes
  ip : IpAddr
  status : UInt16
  rulePath : Option (List Char)
  deriving DecidableEq, Repr

/-- The budget that a call selects. -/
def Call.channel (call : Call) : Channel :=
  if call.event == ascii "ip_ban_released" || call.event == ascii "security_release_unconfirmed"
  then .controls else .requests

/-- `Event`. -/
structure SecurityEvent where
  event : Bytes
  ip : IpAddr
  status : UInt16
  path : List Char
  suppressed : Nat
  deriving DecidableEq, Repr

def Call.toEvent (call : Call) (suppressed : Nat) : SecurityEvent :=
  ⟨call.event, call.ip, call.status, (call.rulePath.getD []).take 128, suppressed⟩

structure Budget where
  start : Nat
  emitted : Nat
  suppressed : Nat
  deriving DecidableEq, Repr

def nanosPerSecond : Nat := 1000000000

/-- `u64::saturating_add`. -/
def saturatingAdd (a b : Nat) : Nat := min (a + b) (2 ^ 64 - 1)

/-- The bounds of the channels. -/
def capacity : Channel → Nat
  | .requests => 224
  | .controls => 32

/-- Entries of the log of a side: a window begins, a call is let through, the queue has
    accepted an event. -/
inductive Mark where
  | window (start : Nat)
  | passed
  | sent
  deriving DecidableEq, Repr

/-- One budget with its queue. What was accepted and the log are kept for the statements,
    the newest entry first. -/
structure Side where
  budget : Option Budget
  queue : List SecurityEvent
  accepted : List SecurityEvent
  log : List Mark
  deriving DecidableEq, Repr

structure Shared where
  clock : Nat
  /-- `QUEUES`, once it is initialised; `false` if its thread could not be spawned. -/
  opened : Option Bool
  /-- The thread that drains the queues has not stopped. -/
  connected : Bool
  side : Channel → Side

def Shared.setSide (s : Shared) (c : Channel) (side : Side) : Shared :=
  { s with side := Function.update s.side c side }

/-- Before the first call. -/
def initial (clock : Nat) : Shared := ⟨clock, none, true, fun _ => ⟨none, [], [], []⟩⟩

/-- Where a call is. -/
inductive Phase where
  | begun
  | timed (now : Nat)
  | charging (now : Nat)
  | opening (suppressed : Nat)
  | sending (suppressed : Nat)
  | returning (suppressed : Nat)
  | returned
  deriving DecidableEq, Repr

structure Thread where
  call : Call
  phase : Phase
  deriving DecidableEq, Repr

/-! ## The sections of a call -/

/-- `get_or_init` on the budget. -/
def Side.init (side : Side) (now : Nat) : Side :=
  if side.budget.isSome then side
  else { side with budget := some ⟨now, 0, 0⟩, log := .window now :: side.log }

/-- The window of the budget is over. -/
def Budget.over (b : Budget) (now : Nat) : Bool := 1 ≤ (now - b.start) / nanosPerSecond

/-- A new window begins if the last one is over. -/
def Side.renew (side : Side) (b : Budget) (now : Nat) : Side × Budget :=
  if b.over now then
    ({ side with log := .window now :: side.log }, { b with start := now, emitted := 0 })
  else (side, b)

/-- The section under the lock before the event is sent; with the count to be sent, if the call
    is let through. -/
def Side.charge (side : Side) (b : Budget) (now : Nat) : Side × Option Nat :=
  let renewed := side.renew b now
  if 10 ≤ renewed.2.emitted then
    ({ renewed.1 with
      budget := some { renewed.2 with suppressed := saturatingAdd renewed.2.suppressed 1 } }, none)
  else
    ({ renewed.1 with
      budget := some { renewed.2 with emitted := renewed.2.emitted + 1, suppressed := 0 }
      log := .passed :: renewed.1.log }, some renewed.2.suppressed)

/-- `try_send` into a queue with room. -/
def Side.push (side : Side) (event : SecurityEvent) : Side :=
  { side with
    queue := side.queue ++ [event]
    accepted := event :: side.accepted
    log := .sent :: side.log }

/-- The section under the lock after an event that was not sent. -/
def Side.giveBack (side : Side) (b : Budget) (suppressed : Nat) : Side :=
  { side with
    budget := some
      { b with suppressed := saturatingAdd (saturatingAdd b.suppressed suppressed) 1 } }

/-- One step of a call; `spawned` is whether the queues' thread can be spawned. -/
def advance (s : Shared) (th : Thread) (spawned : Bool) : Option (Shared × Phase) :=
  let c := th.call.channel
  match th.phase with
  | .begun => some (s, .timed s.clock)
  | .timed now => some (s.setSide c ((s.side c).init now), .charging now)
  | .charging now => (s.side c).budget.map fun b =>
      (s.setSide c ((s.side c).charge b now).1,
        (((s.side c).charge b now).2.map Phase.opening).getD .returned)
  | .opening suppressed =>
    let ok := s.opened.getD spawned
    some ({ s with opened := some ok }, if ok then .sending suppressed else .returning suppressed)
  | .sending suppressed =>
    if s.connected && (s.side c).queue.length < capacity c then
      some (s.setSide c ((s.side c).push (th.call.toEvent suppressed)), .returned)
    else some (s, .returning suppressed)
  | .returning suppressed => (s.side c).budget.map fun b =>
      (s.setSide c ((s.side c).giveBack b suppressed), .returned)
  | .returned => none

/-- What happens around the calls: time passes, the log takes an event from a queue, its thread
    stops. -/
inductive Env where
  | elapse (nanos : Nat)
  | drain (c : Channel)
  | hangUp
  deriving DecidableEq, Repr

def tick (s : Shared) : Env → Option Shared
  | .elapse nanos => some { s with clock := s.clock + nanos }
  | .drain c => some (s.setSide c { s.side c with queue := (s.side c).queue.tail })
  | .hangUp => some { s with connected := false }

def program : Program Shared Thread Call Bool Env where
  start call := some ⟨call, .begun⟩
  advance _ s th spawned :=
    (advance s th spawned).map fun next => (next.1, { th with phase := next.2 })
  tick := tick

/-! ## Moves -/

/-- What a step of a call does to its side. -/
inductive Move (side : Side) : Phase → Side → Phase → Prop
  | read {now : Nat} : Move side .begun side (.timed now)
  | init {now : Nat} : Move side (.timed now) (side.init now) (.charging now)
  | charge {b : Budget} {now : Nat} (hb : side.budget = some b) :
      Move side (.charging now) (side.charge b now).1
        (((side.charge b now).2.map Phase.opening).getD .returned)
  | opened {suppressed : Nat} : Move side (.opening suppressed) side (.sending suppressed)
  | unopened {suppressed : Nat} : Move side (.opening suppressed) side (.returning suppressed)
  | send {event : SecurityEvent} :
      Move side (.sending event.suppressed) (side.push event) .returned
  | refuse {suppressed : Nat} : Move side (.sending suppressed) side (.returning suppressed)
  | giveBack {b : Budget} {suppressed : Nat} (hb : side.budget = some b) :
      Move side (.returning suppressed) (side.giveBack b suppressed) .returned

@[simp] theorem setSide_self (s : Shared) (c : Channel) (side : Side) :
    (s.setSide c side).side c = side := Function.update_self ..

variable {side side' : Side} {middle : List Mark}

theorem setSide_ne {s : Shared} {c c' : Channel} (h : c' ≠ c) :
    (s.setSide c side).side c' = s.side c' := Function.update_of_ne h ..

variable {phase phase' : Phase}

theorem move_of_advance {s s' : Shared} {th : Thread} {spawned : Bool}
    (h : advance s th spawned = some (s', phase)) :
    Move (s.side th.call.channel) th.phase (s'.side th.call.channel) phase ∧
      ∀ c, c ≠ th.call.channel → s'.side c = s.side c := by
  obtain ⟨call, phase₀⟩ := th
  cases phase₀ with
  | begun =>
    cases h
    exact ⟨.read, fun _ _ => rfl⟩
  | timed now =>
    cases h
    rw [setSide_self]
    exact ⟨.init, fun _ => setSide_ne⟩
  | charging now =>
    obtain ⟨b, hb, h⟩ := Option.map_eq_some_iff.mp h
    cases h
    rw [setSide_self]
    exact ⟨.charge hb, fun _ => setSide_ne⟩
  | opening suppressed =>
    cases h
    dsimp only
    split
    · exact ⟨.opened, fun _ _ => rfl⟩
    · exact ⟨.unopened, fun _ _ => rfl⟩
  | sending suppressed =>
    unfold advance at h
    dsimp only at h
    split at h
    · cases h
      rw [setSide_self]
      exact ⟨@Move.send _ (call.toEvent suppressed), fun _ => setSide_ne⟩
    · cases h
      exact ⟨.refuse, fun _ _ => rfl⟩
  | returning suppressed =>
    obtain ⟨b, hb, h⟩ := Option.map_eq_some_iff.mp h
    cases h
    rw [setSide_self]
    exact ⟨.giveBack hb, fun _ => setSide_ne⟩
  | returned => cases h

/-! ## Windows -/

/-- The start of the current window. -/
def lastWindow : List Mark → Option Nat
  | [] => none
  | .window start :: _ => some start
  | _ :: log => lastWindow log

/-- The calls that the current window has let through. -/
def charges : List Mark → Nat
  | [] => 0
  | .window _ :: _ => 0
  | .passed :: log => charges log + 1
  | .sent :: log => charges log

/-- No window lets more than ten calls through, and each begins a second after the last one. -/
def Paced : List Mark → Prop
  | [] => True
  | .window start :: log =>
    Paced log ∧ ∀ previous, lastWindow log = some previous → previous + nanosPerSecond ≤ start
  | .passed :: log => Paced log ∧ charges log < 10
  | .sent :: log => Paced log

theorem Paced.of_append {log log' : List Mark} (h : Paced (log ++ log')) : Paced log' := by
  induction log with
  | nil => exact h
  | cons mark log ih =>
    cases mark with
    | window start => exact ih h.1
    | passed => exact ih h.1
    | sent => exact ih h

theorem Paced.charges_le {log : List Mark} (h : Paced log) : charges log ≤ 10 := by
  induction log with
  | nil => exact Nat.zero_le _
  | cons mark log ih =>
    cases mark with
    | window start => exact Nat.zero_le _
    | passed => exact h.2
    | sent => exact ih h

theorem lastWindow_append (hmiddle : ∀ start, .window start ∉ middle) (start : Nat)
    (log : List Mark) : lastWindow (middle ++ .window start :: log) = some start := by
  induction middle with
  | nil => rfl
  | cons mark middle ih =>
    have hrest := ih fun start hmem => hmiddle start (List.mem_cons_of_mem _ hmem)
    cases mark with
    | window start => exact absurd List.mem_cons_self (hmiddle start)
    | passed => exact hrest
    | sent => exact hrest

theorem charges_append (hmiddle : ∀ start, .window start ∉ middle) (start : Nat) (log : List Mark) :
    charges (middle ++ .window start :: log) = middle.count .passed := by
  induction middle with
  | nil => rfl
  | cons mark middle ih =>
    have hrest := ih fun start hmem => hmiddle start (List.mem_cons_of_mem _ hmem)
    cases mark with
    | window start => exact absurd List.mem_cons_self (hmiddle start)
    | passed =>
      rw [List.count_cons_self]
      exact congrArg (· + 1) hrest
    | sent =>
      rw [List.count_cons_of_ne (by decide)]
      exact hrest

/-- Between two windows. -/
theorem Paced.between {later earlier : List Mark} {start next : Nat}
    (h : Paced (later ++ .window next :: (middle ++ .window start :: earlier)))
    (hmiddle : ∀ start, .window start ∉ middle) :
    middle.count .passed ≤ 10 ∧ start + nanosPerSecond ≤ next := by
  obtain ⟨hpaced, hapart⟩ := h.of_append
  refine ⟨?_, hapart start (lastWindow_append hmiddle start earlier)⟩
  rw [← charges_append hmiddle start earlier]
  exact hpaced.charges_le

/-- The budget of a side counts what its log says. -/
structure Side.Windowed (side : Side) : Prop where
  paced : Paced side.log
  unused : side.budget = none → lastWindow side.log = none
  current : ∀ b, side.budget = some b →
    lastWindow side.log = some b.start ∧ charges side.log = b.emitted

theorem Budget.over_iff {b : Budget} {now : Nat} :
    b.over now = true ↔ b.start + nanosPerSecond ≤ now := by
  unfold Budget.over
  rw [decide_eq_true_eq, Nat.le_div_iff_mul_le (by decide)]
  have : 0 < nanosPerSecond := by decide
  omega

theorem Side.Windowed.renew {side : Side} {b : Budget} {now : Nat} (h : side.Windowed)
    (hb : side.budget = some b) :
    Paced (side.renew b now).1.log ∧
      lastWindow (side.renew b now).1.log = some (side.renew b now).2.start ∧
      charges (side.renew b now).1.log = (side.renew b now).2.emitted := by
  obtain ⟨hstart, hcharges⟩ := h.current b hb
  unfold Side.renew
  split
  · next hover =>
    refine ⟨⟨h.paced, fun previous hprevious => ?_⟩, rfl, rfl⟩
    obtain rfl : b.start = previous := Option.some.inj (hstart.symm.trans hprevious)
    exact Budget.over_iff.mp hover
  · exact ⟨h.paced, hstart, hcharges⟩

theorem Side.Windowed.charge {side : Side} {b : Budget} {now : Nat} (h : side.Windowed)
    (hb : side.budget = some b) : (side.charge b now).1.Windowed := by
  obtain ⟨hpaced, hstart, hcharges⟩ := @Side.Windowed.renew side b now h hb
  unfold Side.charge
  dsimp only
  split
  · refine ⟨hpaced, fun hnone => absurd hnone (Option.some_ne_none _), fun b' hb' => ?_⟩
    obtain rfl := Option.some.inj hb'
    exact ⟨hstart, hcharges⟩
  · next hroom =>
    refine ⟨⟨hpaced, ?_⟩, fun hnone => absurd hnone (Option.some_ne_none _), fun b' hb' => ?_⟩
    · rw [hcharges]
      exact Nat.lt_of_not_le hroom
    · obtain rfl := Option.some.inj hb'
      exact ⟨hstart, congrArg (· + 1) hcharges⟩

/-- **Step lemma** for the windows. -/
theorem Side.Windowed.move (h : side.Windowed) (hmove : Move side phase side' phase') :
    side'.Windowed := by
  cases hmove with
  | read => exact h
  | @init now =>
    unfold Side.init
    split
    · exact h
    · next hnone =>
      have hlog := h.unused (Option.not_isSome_iff_eq_none.mp hnone)
      refine ⟨⟨h.paced, fun previous hprevious => ?_⟩, fun hb => absurd hb (Option.some_ne_none _),
        fun b hb => ?_⟩
      · rw [hlog] at hprevious
        cases hprevious
      · obtain rfl := Option.some.inj hb
        exact ⟨rfl, rfl⟩
  | charge hb => exact h.charge hb
  | opened => exact h
  | unopened => exact h
  | send => exact ⟨h.paced, h.unused, h.current⟩
  | refuse => exact h
  | @giveBack b _ hb =>
    refine ⟨h.paced, fun hnone => absurd hnone (Option.some_ne_none _), fun b' hb' => ?_⟩
    obtain rfl := Option.some.inj hb'
    exact h.current b hb

/-! ## The balance -/

/-- The count that waits for the next event. -/
def Side.pending (side : Side) : Nat := (side.budget.map Budget.suppressed).getD 0

/-- The calls that a side has accounted for: accepted events, the counts they carry, and the
    count that waits. -/
def Side.balance (side : Side) : Nat :=
  side.accepted.length + (side.accepted.map SecurityEvent.suppressed).sum + side.pending

/-- What a call that was let through still owes: itself, and the count it took along. -/
def Phase.debt : Phase → Nat
  | .opening suppressed | .sending suppressed | .returning suppressed => suppressed + 1
  | _ => 0

/-- The call has been at the budget. -/
def Phase.counted : Phase → Nat
  | .begun | .timed _ | .charging _ => 0
  | _ => 1

/-- The call was let through and has not sent its event. -/
def Phase.underway : Phase → Nat
  | .opening _ | .sending _ => 1
  | _ => 0

theorem Side.renew_spec (side : Side) (b : Budget) (now : Nat) :
    (side.renew b now).1.accepted = side.accepted ∧
      (side.renew b now).2.suppressed = b.suppressed ∧
      (side.renew b now).1.log.count .passed = side.log.count .passed ∧
      (side.renew b now).1.log.count .sent = side.log.count .sent := by
  unfold Side.renew
  split
  · exact ⟨rfl, rfl, List.count_cons_of_ne (by simp), List.count_cons_of_ne (by simp)⟩
  · exact ⟨rfl, rfl, rfl, rfl⟩

/-- The budget stops a call, or lets it through with the count that waited. -/
theorem Side.charge_spec (side : Side) (b : Budget) (now : Nat) :
    (side.charge b now).1.accepted = side.accepted ∧
    (side.charge b now).1.log.count .sent = side.log.count .sent ∧
    ∃ b', (side.charge b now).1.budget = some b' ∧
      ((side.charge b now).2 = none ∧ b'.suppressed = saturatingAdd b.suppressed 1 ∧
          (side.charge b now).1.log.count .passed = side.log.count .passed ∨
        (side.charge b now).2 = some b.suppressed ∧ b'.suppressed = 0 ∧
          (side.charge b now).1.log.count .passed = side.log.count .passed + 1) := by
  obtain ⟨haccepted, hsuppressed, hpassed, hsent⟩ := side.renew_spec b now
  unfold Side.charge
  dsimp only
  split
  · refine ⟨haccepted, hsent, _, rfl, .inl ⟨rfl, ?_, hpassed⟩⟩
    rw [← hsuppressed]
  · refine ⟨haccepted, ?_, _, rfl, .inr ⟨congrArg some hsuppressed, rfl, ?_⟩⟩
    · rw [List.count_cons_of_ne (by decide), hsent]
    · rw [List.count_cons_self, hpassed]

theorem saturatingAdd_of_lt {a b : Nat} (h : a + b < 2 ^ 64) : saturatingAdd a b = a + b := by
  unfold saturatingAdd
  omega

theorem Side.pending_le (side : Side) : side.pending ≤ side.balance := Nat.le_add_left ..

/-- The balance of a side with another count waiting. -/
theorem Side.balance_of {side side' : Side} {b b' : Budget}
    (haccepted : side'.accepted = side.accepted) (hb : side.budget = some b)
    (hb' : side'.budget = some b') :
    side'.balance + b.suppressed = side.balance + b'.suppressed := by
  unfold Side.balance Side.pending
  rw [haccepted, hb, hb']
  simp only [Option.map_some, Option.getD_some]
  omega

/-- **Step lemma** for the balance: what a call is counted, it is accounted or owes. -/
theorem Move.balance (h : Move side phase side' phase')
    (hfits : side.balance + phase.debt + phase'.counted < 2 ^ 64 + phase.counted) :
    side'.balance + phase'.debt + phase.counted = side.balance + phase.debt + phase'.counted := by
  cases h with
  | read => rfl
  | @init now =>
    have hbalance : (side.init now).balance = side.balance := by
      unfold Side.init
      split
      · rfl
      · next hnone =>
        unfold Side.balance Side.pending
        rw [Option.not_isSome_iff_eq_none.mp hnone]
        rfl
    rw [hbalance]
    rfl
  | @charge b now hb =>
    obtain ⟨haccepted, -, b', hb', hcases⟩ := side.charge_spec b now
    have hbalance := Side.balance_of haccepted hb hb'
    have hpending : b.suppressed ≤ side.balance := by
      have := side.pending_le
      rwa [Side.pending, hb] at this
    rcases hcases with ⟨hnone, hsuppressed, -⟩ | ⟨hsome, hsuppressed, -⟩
    · rw [hnone] at hfits ⊢
      simp only [Option.map_none, Option.getD_none, Phase.debt, Phase.counted] at hfits ⊢
      rw [saturatingAdd_of_lt (by omega)] at hsuppressed
      omega
    · rw [hsome]
      simp only [Option.map_some, Option.getD_some, Phase.debt, Phase.counted]
      omega
  | opened => rfl
  | unopened => rfl
  | @send event =>
    unfold Side.balance Side.push Side.pending
    simp only [List.length_cons, List.map_cons, List.sum_cons, Phase.debt, Phase.counted]
    omega
  | refuse => rfl
  | @giveBack b suppressed hb =>
    have hbalance := @Side.balance_of side (side.giveBack b suppressed) b _ rfl hb rfl
    have hpending : b.suppressed ≤ side.balance := by
      have := side.pending_le
      rwa [Side.pending, hb] at this
    simp only [Phase.debt, Phase.counted] at hfits ⊢
    have hfirst : saturatingAdd b.suppressed suppressed = b.suppressed + suppressed :=
      saturatingAdd_of_lt (by omega)
    rw [hfirst, saturatingAdd_of_lt (by omega)] at hbalance
    dsimp only at hbalance
    omega

/-- **Step lemma** for the events that are sent: each by a call that was let through. -/
theorem Move.sent (h : Move side phase side' phase') :
    side'.log.count .sent + phase'.underway + side.log.count .passed ≤
      side.log.count .sent + phase.underway + side'.log.count .passed := by
  cases h with
  | read => exact Nat.le_refl _
  | @init now =>
    unfold Side.init
    split
    · exact Nat.le_refl _
    · simp [Phase.underway]
  | @charge b now hb =>
    obtain ⟨-, hsent, b', hb', hcases⟩ := side.charge_spec b now
    rcases hcases with ⟨hnone, -, hpassed⟩ | ⟨hsome, -, hpassed⟩
    · rw [hnone, hsent, hpassed]
      exact Nat.le_refl _
    · rw [hsome, hsent, hpassed]
      simp only [Option.map_some, Option.getD_some, Phase.underway]
      omega
  | opened => exact Nat.le_refl _
  | unopened =>
    simp only [Phase.underway]
    omega
  | send => simp [Side.push, Phase.underway]
  | refuse =>
    simp only [Phase.underway]
    omega
  | giveBack => exact Nat.le_refl _

/-! ## Runs -/

/-- What a call contributes to a total of one budget. -/
def Thread.share (c : Channel) (f : Phase → Nat) (th : Thread) : Nat :=
  if th.call.channel = c then f th.phase else 0

def total (c : Channel) (f : Phase → Nat) (threads : List Thread) : Nat :=
  (threads.map (Thread.share c f)).sum

/-- The calls on a budget. -/
def calls (c : Channel) (threads : List Thread) : Nat := total c (fun _ => 1) threads

/-- What holds of one budget and the calls in every pool that is reached. -/
structure Accounts (c : Channel) (side : Side) (threads : List Thread) : Prop where
  windowed : side.Windowed
  sent : side.log.count .sent + total c Phase.underway threads ≤ side.log.count .passed
  balance : calls c threads < 2 ^ 64 →
    side.balance + total c Phase.debt threads = total c Phase.counted threads

theorem total_snoc (c : Channel) (f : Phase → Nat) (threads : List Thread) (th : Thread) :
    total c f (threads ++ [th]) = total c f threads + th.share c f := by
  simp [total]

/-- A step of a call, in a total. -/
theorem total_set {c : Channel} (f : Phase → Nat) {threads : List Thread} {tid : Nat} {th : Thread}
    (hth : threads[tid]? = some th) (phase : Phase) :
    total c f (threads.set tid { th with phase }) + th.share c f =
      total c f threads + Thread.share c f { th with phase } :=
  Pool.sum_map_set (Thread.share c f) hth _

theorem Phase.counted_le (phase : Phase) : phase.counted ≤ 1 := by
  cases phase <;> simp [Phase.counted]

theorem counted_le_calls (c : Channel) (threads : List Thread) :
    total c Phase.counted threads ≤ calls c threads := by
  induction threads with
  | nil => exact Nat.le_refl 0
  | cons th threads ih =>
    have hshare : th.share c Phase.counted ≤ th.share c fun _ => 1 := by
      unfold Thread.share
      split
      · exact th.phase.counted_le
      · exact Nat.le_refl 0
    exact Nat.add_le_add hshare ih

theorem total_zero (c : Channel) (threads : List Thread) : total c (fun _ => 0) threads = 0 := by
  induction threads with
  | nil => rfl
  | cons th threads ih =>
    show th.share c (fun _ => 0) + total c (fun _ => 0) threads = 0
    rw [ih, Thread.share, ite_self]

/-- **Step lemma** for a call. -/
theorem Accounts.step {c : Channel} {s s' : Shared} {threads : List Thread}
    (h : Accounts c (s.side c) threads) {tid : Nat} {th : Thread} {phase : Phase} {spawned : Bool}
    (hth : threads[tid]? = some th) (hadvance : advance s th spawned = some (s', phase)) :
    Accounts c (s'.side c) (threads.set tid { th with phase }) := by
  obtain ⟨hmove, hothers⟩ := move_of_advance hadvance
  have hcalls := @total_set c (fun _ => 1) threads tid th hth phase
  have hunderway := @total_set c Phase.underway threads tid th hth phase
  have hdebt := @total_set c Phase.debt threads tid th hth phase
  have hcounted := @total_set c Phase.counted threads tid th hth phase
  by_cases hc : c = th.call.channel
  · subst hc
    simp only [Thread.share, if_true] at hcalls hunderway hdebt hcounted
    refine ⟨h.windowed.move hmove, ?_, fun hfits => ?_⟩
    · have hsent := hmove.sent
      have := h.sent
      omega
    · have hle := counted_le_calls th.call.channel (threads.set tid { th with phase })
      have howed : th.phase.debt ≤ total th.call.channel Phase.debt threads := by
        have := Pool.le_sum_map (Thread.share th.call.channel Phase.debt) hth
        rwa [Thread.share, if_pos rfl] at this
      have hsame : calls th.call.channel threads < 2 ^ 64 := by
        unfold calls at hfits ⊢
        omega
      have hbalance := h.balance hsame
      have := hmove.balance (by omega)
      omega
  · -- the call is on the other budget
    have hshare : ∀ f phase, Thread.share c f { th with phase } = 0 := fun f phase =>
      if_neg (Ne.symm hc)
    have hshare₀ : ∀ f, Thread.share c f th = 0 := fun f => hshare f th.phase
    rw [hshare₀, hshare, Nat.add_zero, Nat.add_zero] at hcalls hunderway hdebt hcounted
    rw [hothers c hc]
    refine ⟨h.windowed, ?_, fun hfits => ?_⟩
    · rw [hunderway]
      exact h.sent
    · rw [hdebt, hcounted]
      unfold calls at hfits
      rw [hcalls] at hfits
      exact h.balance hfits

/-- **Step lemma.** -/
theorem Accounts.take {c : Channel} {pool pool' : Pool Shared Thread}
    {event : Event Call Bool Env} (h : Accounts c (pool.shared.side c) pool.threads)
    (htake : program.machine.step pool event = some pool') :
    Accounts c (pool'.shared.side c) pool'.threads := by
  rw [← Program.under_true] at htake
  cases Program.took_of_step htake with
  | start hstart =>
    obtain rfl := Option.some.inj hstart
    refine ⟨h.windowed, ?_, fun hfits => ?_⟩
    · have hshare : ∀ call, Thread.share c Phase.underway ⟨call, .begun⟩ = 0 :=
        fun call => ite_self 0
      rw [total_snoc, hshare]
      exact h.sent
    · have hshare : ∀ call f, f .begun = 0 → Thread.share c f ⟨call, .begun⟩ = 0 := by
        intro call f hf
        unfold Thread.share
        rw [hf, ite_self]
      rw [calls, total_snoc] at hfits
      rw [total_snoc, total_snoc, hshare _ _ rfl, hshare _ _ rfl]
      exact h.balance (Nat.lt_of_le_of_lt (Nat.le_add_right ..) hfits)
  | @step tid spawned th th' s' hth hA hadvance =>
    obtain ⟨⟨s'', phase⟩, hmoved, heq⟩ := Option.map_eq_some_iff.mp hadvance
    obtain ⟨rfl, rfl⟩ := Prod.mk.inj heq
    exact h.step hth hmoved
  | @tick env s' htick =>
    cases env with
    | elapse nanos =>
      cases htick
      exact h
    | hangUp =>
      cases htick
      exact h
    | drain c' =>
      cases htick
      by_cases hc : c = c'
      · subst hc
        dsimp only
        rw [setSide_self]
        exact ⟨⟨h.windowed.paced, h.windowed.unused, h.windowed.current⟩, h.sent, h.balance⟩
      · dsimp only
        rw [setSide_ne hc]
        exact h

theorem accounts_initial (c : Channel) (clock : Nat) : Accounts c ((initial clock).side c) [] where
  windowed := ⟨trivial, fun _ => rfl, fun _ hb => absurd hb.symm (Option.some_ne_none _)⟩
  sent := Nat.le_refl 0
  balance := fun _ => rfl

/-- When no call is in progress, each is counted and none owes anything. -/
theorem total_of_returned {c : Channel} {threads : List Thread}
    (h : ∀ th ∈ threads, th.call.channel = c → th.phase = .returned) (f : Phase → Nat) :
    total c f threads = total c (fun _ => f .returned) threads := by
  refine congrArg List.sum (List.map_congr_left fun th hth => ?_)
  unfold Thread.share
  split
  · next hc => rw [h th hth hc]
  · rfl

/-- **Event accounting.** In every interleaving, with less than `2 ^ 64` calls on a budget and
    none of them in progress, the events that its queue accepted, the counts they carry and the
    count that waits are the calls. Between the beginnings of two windows, in the order in
    which the calls take the lock, at most ten calls are let through, and the two are at least
    a second apart. A window begins at the time that its call read from the clock, before it
    took the lock. No event is sent without a call that was let through. -/
theorem events_accounted {clock : Nat} {events : List (Event Call Bool Env)}
    {pool : Pool Shared Thread}
    (hrun : program.machine.run ⟨initial clock, []⟩ events = some pool) (c : Channel) :
    (calls c pool.threads < 2 ^ 64 →
      (∀ th ∈ pool.threads, th.call.channel = c → th.phase = .returned) →
      (pool.shared.side c).accepted.length +
          ((pool.shared.side c).accepted.map SecurityEvent.suppressed).sum +
        (pool.shared.side c).pending = calls c pool.threads) ∧
    (∀ later next middle start earlier,
      (pool.shared.side c).log = later ++ .window next :: (middle ++ .window start :: earlier) →
      (∀ start, .window start ∉ middle) →
      middle.count .passed ≤ 10 ∧ start + nanosPerSecond ≤ next) ∧
    charges (pool.shared.side c).log ≤ 10 ∧
    (pool.shared.side c).log.count .sent ≤ (pool.shared.side c).log.count .passed := by
  have haccounts : Accounts c (pool.shared.side c) pool.threads :=
    Machine.run_invariant (fun _ _ _ h hstep => Accounts.take h hstep)
      (accounts_initial c clock) hrun
  refine ⟨fun hfits hreturned => ?_, fun later next middle start earlier hlog hmiddle => ?_,
    haccounts.windowed.paced.charges_le, Nat.le_trans (Nat.le_add_right ..) haccounts.sent⟩
  · have hbalance := haccounts.balance hfits
    have hdebt : total c Phase.debt pool.threads = 0 := by
      rw [total_of_returned hreturned]
      exact total_zero c pool.threads
    have hcounted : total c Phase.counted pool.threads = calls c pool.threads :=
      total_of_returned hreturned _
    rw [hdebt, hcounted] at hbalance
    exact hbalance
  · have hpaced := haccounts.windowed.paced
    rw [hlog] at hpaced
    exact hpaced.between hmiddle

/-! ## Two runs -/

namespace Sample

def call : Call := ⟨ascii "path_blocked", .v4 ⟨192, 0, 2, 1⟩, 403, some ['/', 'a']⟩

/-- A call up to the queues, and the rest of it. -/
def enter (tid : Nat) : List (Event Call Bool Env) := List.replicate 3 (.step tid true)

def leave (tid : Nat) : List (Event Call Bool Env) := List.replicate 2 (.step tid true)

/-- Eleven calls of one second; the last one is counted. -/
def busy : List (Event Call Bool Env) :=
  List.replicate 11 (.start call) ++ (List.range 10).flatMap (fun tid => enter tid ++ leave tid) ++
    enter 10

/-- Ten calls are let through and wait. A call of the next second begins a window, and then all
    of them send. -/
def overtaken : List (Event Call Bool Env) :=
  List.replicate 12 (.start call) ++ (List.range 10).flatMap enter ++
    [.tick (.elapse nanosPerSecond)] ++ enter 10 ++ (List.range 11).flatMap leave ++
    [.tick (.elapse nanosPerSecond)] ++ enter 11

/-- Of eleven calls, ten events are in the queue and one call is pending. -/
theorem events_accounted_busy : ∃ pool, program.machine.run ⟨initial 0, []⟩ busy = some pool ∧
    (pool.shared.side .requests).accepted.length = 10 ∧
    (pool.shared.side .requests).accepted.length +
        ((pool.shared.side .requests).accepted.map SecurityEvent.suppressed).sum +
      (pool.shared.side .requests).pending = calls .requests pool.threads := by
  obtain ⟨pool, hrun⟩ : ∃ pool, program.machine.run ⟨initial 0, []⟩ busy = some pool :=
    Option.isSome_iff_exists.mp (by decide +kernel)
  have hpool : (program.machine.run ⟨initial 0, []⟩ busy).map (fun pool =>
      (pool.threads, (pool.shared.side .requests).accepted.length)) =
      some (List.replicate 11 ⟨call, .returned⟩, 10) := by
    decide +kernel
  rw [hrun, Option.map_some, Option.some.injEq, Prod.mk.injEq] at hpool
  obtain ⟨hthreads, haccepted⟩ := hpool
  refine ⟨pool, hrun, haccepted, (events_accounted hrun .requests).1 ?_ ?_⟩
  · rw [hthreads]
    decide +kernel
  · intro th hth _
    rw [hthreads] at hth
    rw [List.eq_of_mem_replicate hth]

/-- Eleven events are sent between two resets of the window. -/
theorem eleven_sent_between_resets : ∃ pool later next middle start earlier,
    program.machine.run ⟨initial 0, []⟩ overtaken = some pool ∧
    (pool.shared.side .requests).log =
      later ++ .window next :: (middle ++ .window start :: earlier) ∧
    (∀ start, .window start ∉ middle) ∧ .window 0 ∈ earlier ∧ middle.count .sent = 11 := by
  obtain ⟨pool, hrun⟩ : ∃ pool, program.machine.run ⟨initial 0, []⟩ overtaken = some pool :=
    Option.isSome_iff_exists.mp (by decide +kernel)
  have hlog : (program.machine.run ⟨initial 0, []⟩ overtaken).map (fun pool =>
      (pool.shared.side .requests).log) = some ([.passed] ++ .window (2 * nanosPerSecond) ::
        ((List.replicate 11 .sent ++ [.passed]) ++ .window nanosPerSecond ::
          (List.replicate 10 .passed ++ [.window 0]))) := by
    decide +kernel
  rw [hrun, Option.map_some, Option.some.injEq] at hlog
  refine ⟨pool, _, _, _, _, _, hrun, hlog, ?_, ?_, ?_⟩
  · intro start hmem
    simp at hmem
  · simp
  · decide

end Sample

end SecurityEvents
