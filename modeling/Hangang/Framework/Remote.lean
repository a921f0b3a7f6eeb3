import Hangang.Framework.Machine

/-! # Calls of a Server That May Not Answer

    A client sends statements to a database on another machine. The database executes a
    statement and answers, refuses it, or its answer is lost; a statement whose answer
    was lost may have been executed before, may still be executed at any later time, or
    never is. Other clients change the database whenever they like.

    * **Programs**: what a call does next, depending on the replies so far.
    * **The machine**: a call among other clients, with the databases it has lived
      through, the number of its statements that took effect and a log of what became
      of its requests.
    * **Ensures**: a precondition that is computed along the program from the log
      alone, and the rule that makes it hold of every run. -/

namespace Remote

/-- What the client learns of a statement it sent. -/
inductive Reply (α : Type) where
  | answered (value : α)
  /-- The server answered with an error; nothing changed. -/
  | rejected
  | unanswered (timedOut : Bool)

/-- A statement that writes. It answers whether it changed anything; `none` is an error
    of the server. -/
structure Statement (Db : Type) where
  exec : Db → Option (Db × Bool)
  /-- Whether the statement is one of those whose effect is at stake. -/
  counted : Bool

/-- A sequential call. -/
inductive Program (Db E α : Type) where
  | done (result : α)
  /-- Connects; the reply is the error if that fails. -/
  | connect (k : Option E → Program Db E α)
  /-- A statement that reads; the answer is computed from the database it saw. -/
  | read (k : Reply Db → Program Db E α)
  | write (s : Statement Db) (k : Reply Bool → Program Db E α)

variable {Db E α β : Type}

namespace Program

def bind : Program Db E α → (α → Program Db E β) → Program Db E β
  | .done a, q => q a
  | .connect k, q => .connect fun failure => (k failure).bind q
  | .read k, q => .read fun reply => (k reply).bind q
  | .write s k, q => .write s fun reply => (k reply).bind q

instance : Monad (Program Db E) where
  pure := .done
  bind := bind

def isDone : Program Db E α → Bool
  | .done _ => true
  | _ => false

end Program

/-- Waits for a connection. -/
def connect : Program Db E (Option E) := .connect .done

/-- Sends a statement that reads. -/
def read : Program Db E (Reply Db) := .read .done

/-- Sends a statement that writes. -/
def write (s : Statement Db) : Program Db E (Reply Bool) := .write s .done

/-! ## The machine -/

/-- What became of a request, where that says something about the database. -/
inductive Notice (Db E : Type) where
  | unconnected (failure : E)
  /-- A read was answered from the database. -/
  | found (db : Db)
  /-- A write was answered; the database is the one it left. -/
  | executed (s : Statement Db) (db : Db) (changed : Bool)
  /-- A write was never answered. -/
  | lost (s : Statement Db)

/-- The notices of a call, the latest first. -/
abbrev Log (Db E : Type) : Type := List (Notice Db E)

/-- A call in progress. -/
structure World (Db E α : Type) where
  db : Db
  /-- Statements whose answer was lost and that were not executed so far. -/
  pending : List (Statement Db)
  /-- The databases since the call began. -/
  seen : List Db
  /-- How many counted statements changed something. -/
  effects : Nat
  log : Log Db E
  program : Program Db E α

/-- A call begins. -/
def World.start (db : Db) (program : Program Db E α) : World Db E α :=
  ⟨db, [], [db], 0, [], program⟩

/-- The database executes a statement, if it does not refuse it. -/
def World.execute (w : World Db E α) (s : Statement Db) : World Db E α × Option Bool :=
  match s.exec w.db with
  | none => (w, none)
  | some (db, changed) =>
    ({ w with
      db := db
      seen := db :: w.seen
      effects := if s.counted && changed then w.effects + 1 else w.effects }, some changed)

inductive Event (Db E : Type) where
  /-- Other clients change the database, in any way. -/
  | other (db : Db)
  | connect (failure : Option E)
  /-- The statement is executed and its answer arrives. -/
  | answer
  /-- The server refuses the statement. -/
  | reject
  /-- The answer is lost, or does not arrive in time. -/
  | lose (timedOut : Bool)
  /-- A statement whose answer was lost is executed. -/
  | late (i : Nat)

/-- A call among other clients, until it returns. -/
def machine : Machine (World Db E α) (Event Db E) where
  step w
    | .other db =>
      if w.program.isDone then none else some { w with db := db, seen := db :: w.seen }
    | .late i =>
      if w.program.isDone then none
      else w.pending[i]?.map fun s => ({ w with pending := w.pending.eraseIdx i }.execute s).1
    | .connect failure =>
      match w.program with
      | .connect k =>
        some { w with log := failure.elim w.log (.unconnected · :: w.log), program := k failure }
      | _ => none
    | .answer =>
      match w.program with
      | .read k =>
        some { w with
          seen := w.db :: w.seen, log := .found w.db :: w.log, program := k (.answered w.db) }
      | .write s k =>
        match w.execute s with
        | (w, some changed) =>
          some { w with log := .executed s w.db changed :: w.log, program := k (.answered changed) }
        | (w, none) => some { w with program := k .rejected }
      | _ => none
    | .reject =>
      match w.program with
      | .read k => some { w with program := k .rejected }
      | .write _ k => some { w with program := k .rejected }
      | _ => none
    | .lose timedOut =>
      match w.program with
      | .read k => some { w with program := k (.unanswered timedOut) }
      | .write s k =>
        some { w with
          pending := s :: w.pending, log := .lost s :: w.log, program := k (.unanswered timedOut) }
      | _ => none

/-! ## What a log says -/

/-- The databases that were current during the call. -/
def Log.seen (log : Log Db E) : List Db :=
  log.filterMap fun
    | .found db => some db
    | .executed _ db _ => some db
    | _ => none

/-- No counted statement was heard to take effect, nor can one still. -/
def Notice.clean : Notice Db E → Bool
  | .executed s _ changed => !(s.counted && changed)
  | .lost s => !s.counted
  | _ => true

def Log.clean (log : Log Db E) : Bool := log.all Notice.clean

/-- A counted statement was answered that it took effect. -/
def Log.landed (log : Log Db E) : Bool :=
  log.any fun
    | .executed s _ changed => s.counted && changed
    | _ => false

/-- Everything that was heard since is as `N` says. -/
def Log.Since (N : Notice Db E → Prop) (log log' : Log Db E) : Prop :=
  ∃ since : Log Db E, log' = since ++ log ∧ ∀ n ∈ since, N n

section since

variable {N N' : Notice Db E → Prop} {log log' log'' : Log Db E}

theorem Log.Since.refl (log : Log Db E) : Log.Since N log log :=
  ⟨[], rfl, fun _ hn => absurd hn List.not_mem_nil⟩

theorem Log.Since.heard (h : Log.Since N log log') {n : Notice Db E} (hn : N n) :
    Log.Since N log (n :: log') := by
  obtain ⟨since, rfl, hsince⟩ := h
  refine ⟨n :: since, rfl, fun m hm => ?_⟩
  rcases List.mem_cons.mp hm with rfl | hmem
  · exact hn
  · exact hsince m hmem

theorem Log.Since.trans (h : Log.Since N log log') (h' : Log.Since N log' log'') :
    Log.Since N log log'' := by
  obtain ⟨since, rfl, hsince⟩ := h
  obtain ⟨since', rfl, hsince'⟩ := h'
  refine ⟨since' ++ since, (List.append_assoc _ _ _).symm, fun n hn => ?_⟩
  rcases List.mem_append.mp hn with hmem | hmem
  · exact hsince' n hmem
  · exact hsince n hmem

theorem Log.Since.mono (h : Log.Since N log log') (himp : ∀ n, N n → N' n) :
    Log.Since N' log log' := by
  obtain ⟨since, heq, hsince⟩ := h
  exact ⟨since, heq, fun n hn => himp n (hsince n hn)⟩

/-- A log stays clean while nothing is heard that counts. -/
theorem Log.Since.clean (h : Log.Since (Notice.clean · = true) log log')
    (hclean : log.clean = true) : log'.clean = true := by
  obtain ⟨since, rfl, hsince⟩ := h
  rw [Log.clean, List.all_append, Bool.and_eq_true]
  exact ⟨List.all_eq_true.mpr hsince, hclean⟩

end since

/-! ## What a program ensures -/

/-- `Post` holds of the result and the log, whatever becomes of the requests. -/
def Ensures (Post : α → Log Db E → Prop) : Program Db E α → Log Db E → Prop
  | .done a, log => Post a log
  | .connect k, log =>
    ∀ failure, Ensures Post (k failure) (failure.elim log (.unconnected · :: log))
  | .read k, log =>
    (∀ db, Ensures Post (k (.answered db)) (.found db :: log)) ∧ Ensures Post (k .rejected) log ∧
      ∀ timedOut, Ensures Post (k (.unanswered timedOut)) log
  | .write s k, log =>
    (∀ db db' changed, s.exec db = some (db', changed) →
      Ensures Post (k (.answered changed)) (.executed s db' changed :: log)) ∧
      Ensures Post (k .rejected) log ∧
      ∀ timedOut, Ensures Post (k (.unanswered timedOut)) (.lost s :: log)

variable {p : Program Db E α} {Post : α → Log Db E → Prop} {s : Statement Db}

/-- **Sequencing rule.** -/
theorem ensures_bind {Post : β → Log Db E → Prop} {q : α → Program Db E β} {log : Log Db E} :
    Ensures Post (p >>= q) log ↔ Ensures (fun a log => Ensures Post (q a) log) p log := by
  show Ensures Post (p.bind q) log ↔ _
  induction p generalizing log with
  | done a => exact Iff.rfl
  | connect k ih => exact forall_congr' fun failure => ih failure
  | read k ih =>
    exact and_congr (forall_congr' fun db => ih _) (and_congr (ih _) (forall_congr' fun _ => ih _))
  | write s k ih =>
    exact and_congr (forall_congr' fun _ => forall_congr' fun _ => forall_congr' fun _ =>
      forall_congr' fun _ => ih _) (and_congr (ih _) (forall_congr' fun _ => ih _))

/-- **Consequence rule.** -/
theorem Ensures.mono {Post' : α → Log Db E → Prop} {log : Log Db E} (h : Ensures Post p log)
    (himp : ∀ a log, Post a log → Post' a log) : Ensures Post' p log := by
  induction p generalizing log with
  | done a => exact himp a log h
  | connect k ih => exact fun failure => ih failure (h failure)
  | read k ih =>
    obtain ⟨hanswered, hrejected, hlost⟩ := h
    exact ⟨fun db => ih _ (hanswered db), ih _ hrejected, fun timedOut => ih _ (hlost timedOut)⟩
  | write s k ih =>
    obtain ⟨hanswered, hrejected, hlost⟩ := h
    exact ⟨fun db db' changed hexec => ih _ (hanswered db db' changed hexec), ih _ hrejected,
      fun timedOut => ih _ (hlost timedOut)⟩

/-- No counted statement took effect, and none ever will. -/
def World.Clean (w : World Db E α) : Prop := w.effects = 0 ∧ ∀ s ∈ w.pending, s.counted = false

/-- The log tells the truth. -/
structure World.Logged (w : World Db E α) : Prop where
  seen : ∀ db ∈ w.log.seen, db ∈ w.seen
  clean : w.log.clean = true → w.Clean
  landed : w.log.landed = true → 0 < w.effects

variable {w w' : World Db E α}

/-- What executing a statement does to the world. -/
theorem World.execute_eq_some {changed : Bool} (h : w.execute s = (w', some changed)) :
    s.exec w.db = some (w'.db, changed) ∧ w'.seen = w'.db :: w.seen ∧
      w'.pending = w.pending ∧ w'.log = w.log ∧ w'.program = w.program ∧
      w'.effects = if s.counted && changed then w.effects + 1 else w.effects := by
  unfold World.execute at h
  split at h
  · cases h
  next db changed' hexec =>
    obtain ⟨rfl, hchanged⟩ := Prod.mk.inj h
    obtain rfl := Option.some.inj hchanged
    exact ⟨hexec, rfl, rfl, rfl, rfl, rfl⟩

theorem World.execute_eq_none (h : w.execute s = (w', none)) : w' = w := by
  unfold World.execute at h
  split at h
  · exact (Prod.mk.inj h).1.symm
  · cases h

/-- A late statement shows nothing the log knows to be otherwise: if it counts, the
    world was not clean. -/
theorem logged_late {i : Nat} (h : w.Logged) (hs : w.pending[i]? = some s) :
    ({ w with pending := w.pending.eraseIdx i }.execute s).1.Logged ∧
      ({ w with pending := w.pending.eraseIdx i }.execute s).1.log = w.log ∧
      ({ w with pending := w.pending.eraseIdx i }.execute s).1.program = w.program := by
  have hrest : ∀ t ∈ w.pending.eraseIdx i, t ∈ w.pending :=
    fun t ht => (List.eraseIdx_sublist _ _).subset ht
  cases hexec : ({ w with pending := w.pending.eraseIdx i } : World Db E α).execute s with
  | mk w' answer =>
    cases answer with
    | none =>
      obtain rfl := World.execute_eq_none hexec
      exact ⟨⟨h.seen, fun hc => ⟨(h.clean hc).1, fun t ht => (h.clean hc).2 t (hrest t ht)⟩,
        h.landed⟩, rfl, rfl⟩
    | some changed =>
      obtain ⟨-, hseen, hpending, hlog, hprogram, heffects⟩ := World.execute_eq_some hexec
      refine ⟨⟨?_, ?_, ?_⟩, hlog, hprogram⟩
      · intro db hdb
        rw [hlog] at hdb
        rw [hseen]
        exact List.mem_cons_of_mem _ (h.seen db hdb)
      · intro hc
        obtain ⟨hzero, hquiet⟩ := h.clean (hlog ▸ hc)
        have huncounted : s.counted = false := hquiet s (List.mem_of_getElem? hs)
        rw [huncounted, Bool.false_and, if_neg (by simp)] at heffects
        rw [World.Clean, hpending, heffects]
        exact ⟨hzero, fun t ht => hquiet t (hrest t ht)⟩
      · intro hlanded
        have hpos : 0 < w.effects := h.landed (hlog ▸ hlanded)
        show 0 < w'.effects
        rw [heffects]
        split
        · exact Nat.succ_pos _
        · exact hpos

/-- A write that is answered. -/
theorem logged_executed {changed : Bool} (h : w.Logged) (hexec : w.execute s = (w', some changed))
    {program : Program Db E α} :
    World.Logged { w' with log := .executed s w'.db changed :: w'.log, program := program } := by
  obtain ⟨-, hseen, hpending, hlog, -, heffects⟩ := World.execute_eq_some hexec
  refine ⟨?_, ?_, ?_⟩
  · intro db hdb
    show db ∈ w'.seen
    rw [hseen]
    rcases List.mem_cons.mp hdb with rfl | hmem
    · exact List.mem_cons_self
    · exact List.mem_cons_of_mem _ (h.seen db (hlog ▸ hmem))
  · -- the log stays clean only if the statement did not count
    intro hc
    obtain ⟨hquiet, hc⟩ := Bool.and_eq_true_iff.mp hc
    obtain ⟨hzero, hpending'⟩ := h.clean (hlog ▸ hc)
    rw [(Bool.not_eq_true' _).mp hquiet, if_neg (by simp)] at heffects
    exact ⟨heffects.trans hzero, fun t ht => hpending' t (hpending ▸ ht)⟩
  · intro hlanded
    show 0 < w'.effects
    rw [heffects]
    split
    · exact Nat.succ_pos _
    next hquiet =>
      rcases Bool.or_eq_true_iff.mp hlanded with hnow | hbefore
      · exact absurd hnow hquiet
      · exact h.landed (hlog ▸ hbefore)

/-- **Step**: the log stays true, and what the program ensures, it still ensures. -/
theorem ensures_step {event : Event Db E} (h : w.Logged ∧ Ensures Post w.program w.log)
    (hstep : machine.step w event = some w') :
    w'.Logged ∧ Ensures Post w'.program w'.log := by
  obtain ⟨hlogged, hens⟩ := h
  obtain ⟨hseen, hclean, hlanded⟩ := id hlogged
  cases event with
  | other db =>
    simp only [machine, Option.ite_none_left_eq_some] at hstep
    obtain rfl := Option.some.inj hstep.2
    exact ⟨⟨fun d hd => List.mem_cons_of_mem _ (hseen d hd), hclean, hlanded⟩, hens⟩
  | late i =>
    simp only [machine, Option.ite_none_left_eq_some, Option.map_eq_some_iff] at hstep
    obtain ⟨-, s, hs, rfl⟩ := hstep
    obtain ⟨hlogged', hlog, hprogram⟩ := logged_late hlogged hs
    rw [hlog, hprogram]
    exact ⟨hlogged', hens⟩
  | connect failure =>
    simp only [machine] at hstep
    split at hstep
    next k hprogram =>
      obtain rfl := Option.some.inj hstep
      rw [hprogram] at hens
      refine ⟨?_, hens failure⟩
      cases failure <;> exact ⟨hseen, hclean, hlanded⟩
    next => cases hstep
  | answer =>
    simp only [machine] at hstep
    split at hstep
    next k hprogram =>
      obtain rfl := Option.some.inj hstep
      rw [hprogram] at hens
      refine ⟨⟨fun d hd => ?_, hclean, hlanded⟩, hens.1 w.db⟩
      rcases List.mem_cons.mp hd with rfl | hmem
      · exact List.mem_cons_self
      · exact List.mem_cons_of_mem _ (hseen d hmem)
    next s k hprogram =>
      rw [hprogram] at hens
      obtain ⟨hanswered, hrejected, -⟩ := hens
      split at hstep
      next w₁ changed hexec =>
        obtain rfl := Option.some.inj hstep
        refine ⟨logged_executed hlogged hexec, ?_⟩
        obtain ⟨hdb, -, -, hlog, -⟩ := World.execute_eq_some hexec
        rw [← hlog] at hanswered
        exact hanswered w.db w₁.db changed hdb
      next w₁ hexec =>
        obtain rfl := Option.some.inj hstep
        obtain rfl := World.execute_eq_none hexec
        exact ⟨⟨hseen, hclean, hlanded⟩, hrejected⟩
    next => cases hstep
  | reject =>
    simp only [machine] at hstep
    split at hstep
    next k hprogram =>
      obtain rfl := Option.some.inj hstep
      rw [hprogram] at hens
      exact ⟨⟨hseen, hclean, hlanded⟩, hens.2.1⟩
    next s k hprogram =>
      obtain rfl := Option.some.inj hstep
      rw [hprogram] at hens
      exact ⟨⟨hseen, hclean, hlanded⟩, hens.2.1⟩
    next => cases hstep
  | lose timedOut =>
    simp only [machine] at hstep
    split at hstep
    next k hprogram =>
      obtain rfl := Option.some.inj hstep
      rw [hprogram] at hens
      exact ⟨⟨hseen, hclean, hlanded⟩, hens.2.2 timedOut⟩
    next s k hprogram =>
      obtain rfl := Option.some.inj hstep
      rw [hprogram] at hens
      refine ⟨⟨hseen, fun hc => ?_, hlanded⟩, hens.2.2 timedOut⟩
      obtain ⟨hcounted, hc⟩ := Bool.and_eq_true_iff.mp hc
      obtain ⟨hzero, hpending⟩ := hclean hc
      refine ⟨hzero, fun t ht => ?_⟩
      rcases List.mem_cons.mp ht with rfl | hmem
      · exact (Bool.not_eq_true' _).mp hcounted
      · exact hpending t hmem
    next => cases hstep

/-- **Run**: a call whose program ensures `Post` returns with `Post`, and its log is
    true. -/
theorem ensures_run {db : Db} {events : List (Event Db E)} {a : α} (h : Ensures Post p [])
    (hrun : machine.run (World.start db p) events = some w) (hdone : w.program = .done a) :
    w.Logged ∧ Post a w.log := by
  have hstart : (World.start db p).Logged :=
    ⟨fun d hd => absurd hd List.not_mem_nil, fun _ => ⟨rfl, fun s hs => absurd hs List.not_mem_nil⟩,
      fun hlanded => by cases hlanded⟩
  obtain ⟨hlogged, hens⟩ : w.Logged ∧ Ensures Post w.program w.log :=
    Machine.run_invariant (fun _ _ _ h hstep => ensures_step h hstep) ⟨hstart, h⟩ hrun
  rw [hdone] at hens
  exact ⟨hlogged, hens⟩

end Remote
