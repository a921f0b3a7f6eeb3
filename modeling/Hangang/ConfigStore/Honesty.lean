import Hangang.ConfigStore.Postgres

/-! # Honest Outcomes

    A compare-and-swap whose answer may be lost never claims more than it knows.
    `Applied` needs evidence: the answered update, or the candidate itself in a row that
    was read. Every other definite outcome needs the opposite: all attempts were answered,
    and none of them changed anything.

    The specifications below follow the programs of the call. Reading, and giving an old
    document its epoch, changes nothing that counts. -/

open Bytes Except Remote

namespace ConfigStore

open Postgres

variable {α β : Type} {log : Log Db StoreError}

/-! ## Rules for calls -/

variable {Post : StoreResult β → Log Db StoreError → Prop} {r : StoreResult α} {s : Statement Db}

theorem ensures_call_bind {x : Postgres α} {q : α → Postgres β} :
    Ensures Post (x >>= q).run log ↔ Ensures (fun r log =>
      match r with
      | .ok a => Ensures Post (q a).run log
      | .error e => Post (.error e) log) x.run log := by
  show Ensures Post (x.run >>= ExceptT.bindCont q) log ↔ _
  rw [ensures_bind]
  have hcont : (fun a log => Ensures Post (ExceptT.bindCont q a) log) =
      fun r log => match r with
        | .ok a => Ensures Post (q a).run log
        | .error e => Post (.error e) log := by
    funext r log
    cases r with
    | ok a => rfl
    | error e => rfl
  rw [hcont]

theorem ensures_lifted {Post : StoreResult α → Log Db StoreError → Prop}
    {p : Program Db StoreError α} :
    Ensures Post (ExceptT.lift p : Postgres α).run log ↔
      Ensures (fun a log => Post (.ok a) log) p log := by
  show Ensures Post (p >>= fun a => pure (.ok a)) log ↔ _
  exact ensures_bind

theorem ensures_lift {Post : StoreResult α → Log Db StoreError → Prop} :
    Ensures Post (lift r).run log ↔ Post r log :=
  Iff.rfl

theorem ensures_map_lift {g : α → β} :
    Ensures Post (g <$> lift r : Postgres β).run log ↔ Post (r.map g) log := by
  cases r with
  | ok a => exact Iff.rfl
  | error e => exact Iff.rfl

theorem ensures_observe {Post : StoreResult (StoreResult α) → Log Db StoreError → Prop}
    {call : Postgres α} :
    Ensures Post (observe call).run log ↔
      Ensures (fun r log => Post (.ok r) log) call.run log :=
  ensures_lifted

/-- **Computation rule**: what is computed between two statements. -/
theorem ensures_lift_bind {q : α → Postgres β} (herror : ∀ e, Post (.error e) log)
    (hok : ∀ a, r = .ok a → Ensures Post (q a).run log) :
    Ensures Post (lift r >>= q).run log := by
  rw [ensures_call_bind, ensures_lift]
  cases r with
  | error e => exact herror e
  | ok a => exact hok a rfl

theorem ensures_client {Post : StoreResult Unit → Log Db StoreError → Prop} :
    Ensures Post client.run log ↔
      Post (.ok ()) log ∧ ∀ e, Post (.error e) (.unconnected e :: log) := by
  constructor
  · intro h
    exact ⟨h none, fun e => h (some e)⟩
  · rintro ⟨hok, herror⟩ failure
    cases failure with
    | none => exact hok
    | some e => exact herror e

/-- **Attempts**: a statement, and once more if it failed. -/
theorem ensures_run {Post : StoreResult (Attempted α) → Log Db StoreError → Prop}
    {access : Access} {p : Program Db StoreError (Reply α)}
    (hclient : ∀ e, Post (.error e) (.unconnected e :: log))
    (hattempts : Ensures (fun reply log =>
      match postgresTimeout reply with
      | .ok value => Post (.ok ⟨value, false⟩) log
      | .error first => (∀ e, Post (settle access first .unsent) (.unconnected e :: log)) ∧
        Ensures (fun reply log => Post (settle access first (.sent reply)) log) p log) p log) :
    Ensures Post (run access p).run log := by
  unfold run
  rw [ensures_call_bind, ensures_client]
  refine ⟨?_, hclient⟩
  show Ensures Post (ExceptT.lift p >>= _ : Postgres _).run log
  rw [ensures_call_bind, ensures_lifted]
  apply hattempts.mono
  intro reply log h
  show Ensures Post (ExceptT.run _) log
  cases hreply : postgresTimeout reply with
  | ok value =>
    rw [hreply] at h
    exact h
  | error first =>
    rw [hreply] at h
    obtain ⟨hunsent, hsent⟩ := h
    show Ensures Post (ExceptT.lift connect >>= _ : Postgres _).run log
    rw [ensures_call_bind, ensures_lifted]
    intro failure
    cases failure with
    | some e => exact hunsent e
    | none =>
      show Ensures Post (ExceptT.lift p >>= _ : Postgres _).run log
      rw [ensures_call_bind, ensures_lifted]
      exact hsent

/-- Only changes that do not count, and no row that was read. -/
def Upkeep (n : Notice Db StoreError) : Prop := n.clean = true ∧ ∀ db, n ≠ .found db

theorem upkeep_unconnected (e : StoreError) : Upkeep (.unconnected e) :=
  ⟨rfl, fun _ h => by cases h⟩

/-! ## Attempts of a mutation -/

/-- What is known after the attempts of a counted statement. -/
def Attempts (s : Statement Db) (log : Log Db StoreError) :
    StoreResult (Attempted Bool) → Log Db StoreError → Prop
  | .ok ⟨value, uncertain⟩, log' => ∃ db db', s.exec db = some (db', value) ∧
    log' = .executed s db' value :: if uncertain then .lost s :: log else log
  | .error (.indeterminate _), log' => log'.landed = log.landed
  | .error _, log' => log.Since Upkeep log'

/-- The second attempt: without an answer to the first, only an answer is definite. -/
theorem attempts_retry {message : String} {answered : Bool} :
    (∀ e, Attempts s log (settle .mutation ⟨message, answered⟩ .unsent)
      (.unconnected e :: if answered then log else .lost s :: log)) ∧
    Ensures (fun reply log' =>
        Attempts s log (settle .mutation ⟨message, answered⟩ (.sent reply)) log')
      (write s : Program Db StoreError (Reply Bool))
      (if answered then log else .lost s :: log) := by
  cases answered with
  | false =>
    refine ⟨fun e => rfl, fun db db' changed hexec => ⟨db, db', hexec, rfl⟩, rfl,
      fun timedOut => ?_⟩
    cases timedOut <;> rfl
  | true =>
    refine ⟨fun e => (Log.Since.refl log).heard (upkeep_unconnected e),
      fun db db' changed hexec => ⟨db, db', hexec, rfl⟩, Log.Since.refl log, fun timedOut => ?_⟩
    cases timedOut <;> rfl

/-- The attempts of a compare-and-swap. -/
theorem ensures_attempts :
    Ensures (Attempts s log) (run .mutation (write s)).run log := by
  apply ensures_run
  · intro e
    cases e with
    | indeterminate message => rfl
    | unavailable message => exact (Log.Since.refl log).heard (upkeep_unconnected _)
    | invalid message => exact (Log.Since.refl log).heard (upkeep_unconnected _)
  · refine ⟨fun db db' changed hexec => ⟨db, db', hexec, rfl⟩, attempts_retry, fun timedOut => ?_⟩
    -- unanswered: from here on nothing is known to be unchanged
    cases timedOut <;> exact attempts_retry

/-! ## Reads -/

/-- A query and the row it found, or why there is none. -/
def Queried (log : Log Db StoreError) : StoreResult Db → Log Db StoreError → Prop
  | .ok db, log' => log' = .found db :: log
  | .error e, log' => log.Since Upkeep log' ∧
    ((∃ message, e = .unavailable message) ∨ .unconnected e ∈ log')

theorem ensures_queryOpt : Ensures (Queried log) queryOpt.run log := by
  have hunavailable : ∀ {log' : Log Db StoreError} {message : String}, log.Since Upkeep log' →
      Queried log (.error (.unavailable message)) log' := fun h => ⟨h, .inl ⟨_, rfl⟩⟩
  have hretry : ∀ first,
      (∀ e, Queried log ((settle .read first .unsent).map Attempted.value)
        (.unconnected e :: log)) ∧
      Ensures (fun reply log' =>
          Queried log ((settle .read first (.sent reply)).map Attempted.value) log')
        (read : Program Db StoreError (Reply Db)) log := by
    intro first
    refine ⟨fun e => hunavailable ((Log.Since.refl log).heard (upkeep_unconnected e)),
      fun db => rfl, hunavailable (Log.Since.refl log), fun timedOut => ?_⟩
    cases timedOut <;> exact hunavailable (Log.Since.refl log)
  have hrun : Ensures (fun r log' => Queried log (r.map Attempted.value) log')
      (run .read read).run log := by
    apply ensures_run
    · intro e
      exact ⟨(Log.Since.refl log).heard (upkeep_unconnected e), .inr List.mem_cons_self⟩
    · refine ⟨fun db => rfl, hretry _, fun timedOut => ?_⟩
      cases timedOut <;> exact hretry _
  unfold queryOpt
  rw [ensures_call_bind]
  apply hrun.mono
  rintro (e | attempted) log' h
  · exact h
  · exact h

/-- A statement that may be sent twice is heard of in one way only. -/
theorem ensures_run_since {N : Notice Db StoreError → Prop} {access : Access}
    {p : Program Db StoreError (Reply α)} (hconnect : ∀ e, N (.unconnected e))
    (hp : ∀ log, Ensures (fun _ log' => log.Since N log') p log) :
    Ensures (fun _ log' => log.Since N log') (run access p).run log := by
  apply ensures_run
  · exact fun e => (Log.Since.refl log).heard (hconnect e)
  · apply (hp log).mono
    intro reply log' h
    split
    · exact h
    · exact ⟨fun e => h.heard (hconnect e), (hp log').mono fun _ _ h' => h.trans h'⟩

/-- Giving a document its epoch does not count. -/
theorem ensures_execute (hs : s.counted = false) :
    Ensures (fun _ log' => log.Since Upkeep log') (execute s).run log := by
  have hwrite : ∀ log, Ensures (fun _ log' => log.Since Upkeep log')
      (write s : Program Db StoreError (Reply Bool)) log := by
    intro log
    refine ⟨fun db db' changed _ => (Log.Since.refl log).heard ⟨?_, fun _ h => by cases h⟩,
      Log.Since.refl log, fun _ => (Log.Since.refl log).heard ⟨?_, fun _ h => by cases h⟩⟩
    · rw [Notice.clean, hs, Bool.false_and, Bool.not_false]
    · rw [Notice.clean, hs, Bool.not_false]
  unfold execute
  rw [ensures_call_bind]
  apply (ensures_run_since upkeep_unconnected hwrite).mono
  rintro (e | attempted) log' h
  · exact h
  · exact h

section documents

variable {Config : Type} {f : Format Config} {fresh : Bytes}

/-- The document was durable when one of the databases was current. -/
def Durable (f : Format Config) (stored : Stored Config) (seen : List Db) : Prop :=
  ∃ db ∈ seen, ∃ row, db.row = some row ∧ row.epoch = stored.epoch ∧
    Holds f (f.revision stored.config) stored.config row

variable {db : Db} {log₀ log' : Log Db StoreError} {e : StoreError} {row : Row}

theorem postgresRow_eq_ok {row : Option Row} (h : postgresRow db = .ok row) :
    db.row = row := by
  unfold postgresRow at h
  split at h
  next hrow => exact hrow.trans (Except.ok.inj h)
  next stored hrow =>
    simp only [bind_eq_ok] at h
    obtain ⟨_, -, _, -, heq⟩ := h
    exact hrow.trans (Except.ok.inj heq)

/-- What cannot be read is reported as such. -/
def Invalid (r : StoreResult α) : Prop := ∀ e, r = .error e → ∃ message, e = .invalid message

theorem invalid_ensure {c : Prop} [Decidable c] {message : String} {k : Unit → StoreResult α}
    (hk : Invalid (k ())) : Invalid (ensure c (StoreError.invalid message) >>= k) := by
  intro e h
  by_cases hc : c
  · rw [ensure_of hc] at h
    exact hk e h
  · rw [ensure_of_not hc] at h
    exact ⟨message, (Except.error.inj h).symm⟩

theorem invalid_ok (a : α) : Invalid (.ok a) := fun _ h => by cases h

theorem invalid_postgresRow (db : Db) : Invalid (postgresRow db) := by
  unfold postgresRow
  split
  · exact invalid_ok _
  · exact invalid_ensure (invalid_ensure (invalid_ok _))

theorem invalid_decodeRow (row : Row) : Invalid (decodeRow f row) := by
  have hdecode : Invalid (f.decode row.revision row.json) := by
    apply invalid_ensure
    split
    · exact fun e h => ⟨_, (Except.error.inj h).symm⟩
    · exact invalid_ensure (invalid_ensure (invalid_ok _))
  apply invalid_ensure
  intro e h
  rcases bind_eq_error.mp h with hfailed | ⟨_, -, h⟩
  · exact hdecode e hfailed
  · cases h

/-- **Query**: the next thing a call does is look at the document's row. -/
theorem ensures_query_row {Post : StoreResult α → Log Db StoreError → Prop}
    {q : Option Row → Postgres α}
    (hfailed : ∀ e log', Queried log (.error e) log' → Post (.error e) log')
    (hinvalid : ∀ db message, postgresRow db = .error (.invalid message) →
      Post (.error (.invalid message)) (.found db :: log))
    (hq : ∀ db row, postgresRow db = .ok row → Ensures Post (q row).run (.found db :: log)) :
    Ensures Post (queryOpt >>= fun db => lift (postgresRow db) >>= q).run log := by
  rw [ensures_call_bind]
  apply ensures_queryOpt.mono
  rintro (e | db) log' h
  · exact hfailed e log' h
  · obtain rfl := h
    show Ensures Post (lift (postgresRow db) >>= q).run _
    rw [ensures_call_bind, ensures_lift]
    cases hrow : postgresRow db with
    | error e =>
      obtain ⟨message, rfl⟩ := invalid_postgresRow db e hrow
      exact hinvalid db message hrow
    | ok row => exact hq db row hrow

/-- The row is one that can be decoded. -/
def Readable (f : Format Config) (db : Db) : Prop :=
  ∃ row, postgresRow db = .ok (some row) ∧ ∃ stored, decodeRow f row = .ok stored

/-- Nothing that counts, and no row that can be decoded. -/
def Unread (f : Format Config) (n : Notice Db StoreError) : Prop :=
  n.clean = true ∧ ∀ db, n = .found db → ¬ Readable f db

theorem unread_of_upkeep {n : Notice Db StoreError} (h : Upkeep n) : Unread f n :=
  ⟨h.1, fun db heq => absurd heq (h.2 db)⟩

theorem unread_found (h : ¬ Readable f db) : Unread f (.found db) :=
  ⟨rfl, fun _ heq => by cases heq; exact h⟩

/-- A document from before there were epochs was found. -/
def FoundOld (log : Log Db StoreError) : Prop :=
  ∃ db row, .found db ∈ log ∧ db.row = some row ∧ row.epoch = []

/-- What `load_stored` returns, and what it heard. -/
def Loaded (f : Format Config) (log : Log Db StoreError) :
    StoreResult (Option (Stored Config)) → Log Db StoreError → Prop
  | .ok (some stored), log' => log.Since (Notice.clean · = true) log' ∧ ∃ db row,
    .found db ∈ log' ∧ postgresRow db = .ok (some row) ∧ decodeRow f row = .ok stored
  | .ok none, log' => log.Since (Unread f) log'
  | .error e, log' => log.Since (Unread f) log' ∧
    ∀ message, e = .indeterminate message → .unconnected e ∈ log' ∨ FoundOld log'

theorem loaded_failed (h : Queried log (.error e) log') (hbefore : log₀.Since (Unread f) log) :
    Loaded f log₀ (.error e) log' := by
  obtain ⟨hupkeep, hwhy⟩ := h
  refine ⟨hbefore.trans (hupkeep.mono fun _ => unread_of_upkeep), fun message heq => ?_⟩
  rcases hwhy with ⟨message', rfl⟩ | hunconnected
  · cases heq
  · exact .inl hunconnected

theorem loaded_invalid {message : String} (hbefore : log₀.Since (Unread f) log)
    (hunread : ¬ Readable f db) :
    Loaded f log₀ (.error (.invalid message)) (.found db :: log) :=
  ⟨hbefore.heard (unread_found hunread), fun _ heq => by cases heq⟩

/-- A row that was just read, with an epoch. -/
theorem loaded_decoded (hbefore : log₀.Since (Unread f) log)
    (hrow : postgresRow db = .ok (some row)) :
    Ensures (Loaded f log₀) (some <$> lift (decodeRow f row) : Postgres _).run
      (.found db :: log) := by
  rw [ensures_map_lift]
  cases hdecode : decodeRow f row with
  | error e =>
    obtain ⟨message, rfl⟩ := invalid_decodeRow row e hdecode
    refine loaded_invalid hbefore ?_
    rintro ⟨row', hrow', stored, hstored⟩
    obtain rfl := Option.some.inj (Except.ok.inj (hrow.symm.trans hrow'))
    rw [hdecode] at hstored
    cases hstored
  | ok stored =>
    exact ⟨(hbefore.mono fun _ h => h.1).heard rfl, db, row, List.mem_cons_self, hrow, hdecode⟩

theorem not_readable_of_none (h : postgresRow db = .ok none) : ¬ Readable f db := by
  rintro ⟨row, hrow, -⟩
  rw [h] at hrow
  cases hrow

theorem not_readable_of_old (h : postgresRow db = .ok (some row)) (hold : row.epoch = []) :
    ¬ Readable f db := by
  rintro ⟨row', hrow', stored, hstored⟩
  obtain rfl := Option.some.inj (Except.ok.inj (h.symm.trans hrow'))
  rw [decodeRow, hold] at hstored
  cases hstored

theorem ensures_loadStored : Ensures (Loaded f log) (loadStored f fresh).run log := by
  have hrefl : log.Since (Unread f) log := Log.Since.refl log
  have hreject : ∀ {db : Db} {message : String}, postgresRow db = .error (.invalid message) →
      ¬ Readable f db := by
    rintro db message h ⟨row, hrow, -⟩
    rw [h] at hrow
    cases hrow
  apply ensures_query_row
  · exact fun e log' h => loaded_failed h hrefl
  · exact fun db message h => loaded_invalid hrefl (hreject h)
  · rintro db (_ | row) hrow
    · exact hrefl.heard (unread_found (not_readable_of_none hrow))
    · show Ensures _ (ExceptT.run (if row.epoch = [] then _ else _)) _
      split
      next hold =>
        have hbefore : log.Since (Unread f) (.found db :: log) :=
          hrefl.heard (unread_found (not_readable_of_old hrow hold))
        rw [ensures_call_bind]
        apply (ensures_execute rfl).mono
        intro r log' hupkeep
        have hsince : log.Since (Unread f) log' :=
          hbefore.trans (hupkeep.mono fun _ => unread_of_upkeep)
        cases r with
        | error e =>
          obtain ⟨since, rfl, -⟩ := hupkeep
          exact ⟨hsince, fun _ _ => .inr ⟨db, row, List.mem_append_right _ List.mem_cons_self,
            postgresRow_eq_ok hrow, hold⟩⟩
        | ok changed =>
          apply ensures_query_row
          · exact fun e log' h => loaded_failed h hsince
          · exact fun db message h => loaded_invalid hsince (hreject h)
          · rintro db (_ | row) hrow
            · exact loaded_invalid hsince (not_readable_of_none hrow)
            · exact loaded_decoded hsince hrow
      next => exact loaded_decoded hrefl hrow

/-- A call that leaves what counts alone, and returns what `Q` says. -/
def Reads (Q : α → List Db → Prop) (log : Log Db StoreError) :
    StoreResult α → Log Db StoreError → Prop :=
  fun r log' => log.Since (Notice.clean · = true) log' ∧ ∀ a, r = .ok a → Q a log'.seen

theorem reads_error {Q : α → List Db → Prop} (h : log.Since (Notice.clean · = true) log') :
    Reads Q log (.error e) log' :=
  ⟨h, fun _ heq => by cases heq⟩

theorem reads_queried {Q : α → List Db → Prop} (hbefore : log₀.Since (Notice.clean · = true) log)
    (h : Queried log (.error e) log') :
    Reads Q log₀ (.error e) log' :=
  reads_error (hbefore.trans (h.1.mono fun _ => And.left))

/-- The row of a database that was found is durable. -/
theorem durable_found {stored : Stored Config} (hfound : .found db ∈ log)
    (hrow : postgresRow db = .ok (some row)) (hdecode : decodeRow f row = .ok stored) :
    Durable f stored log.seen :=
  ⟨db, List.mem_filterMap.mpr ⟨_, hfound, rfl⟩, row, postgresRow_eq_ok hrow,
    decodeRow_eq_ok hdecode⟩

theorem reads_loaded {r : StoreResult (Option (Stored Config))} (h : Loaded f log r log') :
    Reads (fun stored seen => ∀ s, stored = some s → Durable f s seen) log r log' := by
  rcases r with e | _ | stored
  · exact reads_error (h.1.mono fun _ => And.left)
  · exact ⟨h.mono fun _ => And.left, fun _ heq s hs => by cases heq; cases hs⟩
  · obtain ⟨hquiet, db, row, hfound, hrow, hdecode⟩ := h
    refine ⟨hquiet, fun _ heq s hs => ?_⟩
    cases heq
    cases hs
    exact durable_found hfound hrow hdecode

/-- An answer that is computed from the database. -/
theorem ensures_queryOpt_lift {g : Db → StoreResult α} :
    Ensures (Reads (fun _ _ => True) log) (queryOpt >>= fun db => lift (g db)).run log := by
  rw [ensures_call_bind]
  apply ensures_queryOpt.mono
  rintro (e | db) log' h
  · exact reads_queried (Log.Since.refl log) h
  · obtain rfl := h
    exact ⟨(Log.Since.refl log).heard rfl, fun _ _ => trivial⟩

theorem ensures_postgresReceiptObservation {authorityId operationId : Bytes} :
    Ensures (Reads (fun _ _ => True) log)
      (postgresReceiptObservation authorityId operationId).run log :=
  ensures_lift_bind (fun _ => reads_error (Log.Since.refl log)) fun _ _ => ensures_queryOpt_lift

theorem ensures_postgresSequencedObservation {authorityId : Bytes} {seq : Nat} :
    Ensures (Reads (fun _ _ => True) log)
      (postgresSequencedObservation f authorityId seq).run log :=
  ensures_queryOpt_lift

theorem observeRow_eq_ok {current : Observed Config} (h : observeRow f row = .ok current) :
    decodeRow f row = .ok current.stored := by
  simp only [observeRow, bind_eq_ok] at h
  obtain ⟨_, hepoch, metadata, -, config, hconfig, h⟩ := h
  obtain rfl := Except.ok.inj h
  simp only [decodeRow, hepoch, hconfig, ok_bind]

theorem ensures_loadStoredWithProof :
    Ensures (Reads (fun current seen => ∀ c : Observed Config, current = some c →
      Durable f c.stored seen) log) (loadStoredWithProof f fresh).run log := by
  unfold loadStoredWithProof
  rw [ensures_call_bind]
  apply ensures_loadStored.mono
  intro r log' h
  have hquiet := (reads_loaded h).1
  cases r with
  | error e => exact reads_error hquiet
  | ok stored =>
    apply ensures_query_row
    · exact fun e log'' h => reads_queried hquiet h
    · exact fun db message _ => reads_error (hquiet.heard rfl)
    · rintro db (_ | row) hrow
      · exact ⟨hquiet.heard rfl, fun _ heq c hc => by cases heq; cases hc⟩
      · show Ensures _ (some <$> lift (observeRow f row) : Postgres _).run _
        rw [ensures_map_lift]
        cases hobserve : observeRow f row with
        | error e => exact reads_error (hquiet.heard rfl)
        | ok current =>
          refine ⟨hquiet.heard rfl, fun _ heq c hc => ?_⟩
          cases heq
          cases hc
          exact durable_found List.mem_cons_self hrow (observeRow_eq_ok hobserve)

end documents

/-! ## The compare-and-swaps -/

section calls

variable {Config : Type} [DecidableEq Config] {f : Format Config} {fresh epoch : Bytes}
  {expected : Nat} {next : Config} {stored : Stored Config} {uncertain : Bool}

/-- What a result may claim about the candidate. -/
def Honest (f : Format Config) (candidate : Stored Config) :
    StoreResult (CasResult Config) → Log Db StoreError → Prop
  | .ok (.applied stored), log => stored = candidate ∧ Durable f candidate log.seen
  | .ok (.conflict _), log => log.clean = true
  | .error (.indeterminate _), _ => True
  | .error _, log => log.clean = true

omit [DecidableEq Config] in
theorem honest_error {e : StoreError} (h : log.clean = true) :
    Honest f stored (.error e) log := by
  cases e with
  | unavailable => exact h
  | invalid => exact h
  | indeterminate => trivial

omit [DecidableEq Config] in
/-- **Recovery**: the result of reading back is looked at. -/
theorem ensures_observe_bind {Q : α → List Db → Prop}
    {Post : StoreResult β → Log Db StoreError → Prop}
    {call : Postgres α} {q : StoreResult α → Postgres β}
    (hcall : Ensures (Reads Q log) call.run log)
    (hq : ∀ r log', (log.clean = true → log'.clean = true) → (∀ a, r = .ok a → Q a log'.seen) →
      Ensures Post (q r).run log') :
    Ensures Post (observe call >>= q).run log := by
  rw [ensures_call_bind, ensures_observe]
  apply hcall.mono
  rintro r log' ⟨hquiet, hr⟩
  exact hq r log' hquiet.clean hr

omit [DecidableEq Config] in
/-- A compare-and-swap is its attempts, and what it does when they changed nothing. -/
theorem ensures_cas {s : Statement Db} {q : Attempted Bool → Postgres (CasResult Config)}
    (happlied : ∀ uncertain, q ⟨true, uncertain⟩ = pure (.applied stored))
    (hdurable : ∀ db db', s.exec db = some (db', true) → ∃ row, db'.row = some row ∧
      row.epoch = stored.epoch ∧ Holds f (f.revision stored.config) stored.config row)
    (hrest : ∀ uncertain log, (uncertain = false → log.clean = true) →
      Ensures (Honest f stored) (q ⟨false, uncertain⟩).run log) :
    Ensures (Honest f stored) (run .mutation (write s) >>= q).run [] := by
  rw [ensures_call_bind]
  apply ensures_attempts.mono
  rintro (e | ⟨value, uncertain⟩) log hattempts
  · cases e with
    | unavailable => exact (hattempts.mono fun _ => And.left).clean rfl
    | invalid => exact (hattempts.mono fun _ => And.left).clean rfl
    | indeterminate => trivial
  · obtain ⟨db, db', hexec, rfl⟩ := hattempts
    cases value with
    | true =>
      show Ensures _ (q ⟨true, uncertain⟩).run _
      rw [happlied]
      exact ⟨rfl, db', List.mem_cons_self, hdurable db db' hexec⟩
    | false =>
      apply hrest
      rintro rfl
      rw [Log.clean, List.all_cons, Notice.clean, Bool.and_false]
      rfl

variable {encoded : Bytes} {db db' : Db} {revision : Nat} {stamp : OperationStamp}
  {candidate : Stored Config}

/-- The row is what a compare-and-swap writes. -/
def Wrote (epoch : Bytes) (revision : Nat) (encoded : Bytes) (db : Db) : Prop :=
  ∃ row, db.row = some row ∧ row.epoch = epoch ∧ row.revision = revision ∧ row.json = encoded

omit [DecidableEq Config] in
/-- The row that is written holds the candidate. -/
theorem Wrote.holds (h : Wrote epoch (expected + 1) encoded db)
    (hencoded : f.encode (f.withRevision next (expected + 1)) = .ok encoded) :
    ∃ row, db.row = some row ∧ row.epoch = epoch ∧
      Holds f (f.revision (f.withRevision next (expected + 1)))
        (f.withRevision next (expected + 1)) row := by
  obtain ⟨row, hrow, hepoch, hrevision, hjson⟩ := h
  refine ⟨row, hrow, hepoch, hrevision.trans (f.revision_withRevision _ _).symm, .inl ?_⟩
  exact (Format.encode_eq_ok.mp hencoded).2.2.trans hjson.symm

theorem resolveUnchangedCas_honest {current : StoreResult (Option (Stored Config))}
    (hcurrent : ∀ found, current = .ok found → ∀ s, found = some s → Durable f s log.seen)
    (hclean : uncertain = false → log.clean = true) :
    Honest f ⟨epoch, next⟩ (resolveUnchangedCas f current epoch next uncertain) log := by
  unfold resolveUnchangedCas
  split
  · cases uncertain with
    | true => trivial
    | false => exact hclean rfl
  next e =>
    cases uncertain with
    | true => trivial
    | false => exact honest_error (hclean rfl)
  next found =>
    unfold resolveCas
    split
    next stored hstored =>
      split at hstored
      next hsame =>
        obtain rfl := CasResult.applied.inj hstored
        obtain ⟨rfl, rfl⟩ := hsame
        exact ⟨rfl, hcurrent _ rfl _ rfl⟩
      next => cases hstored
    next =>
      cases uncertain with
      | true => trivial
      | false => exact hclean rfl

theorem casStatement_wrote
    (h : (casStatement epoch expected revision encoded).exec db = some (db', true)) :
    Wrote epoch revision encoded db' := by
  simp only [casStatement] at h
  split at h
  · cases h
  next hupdate =>
    obtain ⟨rfl, -⟩ := Prod.mk.inj (Option.some.inj h)
    obtain ⟨generation, hrow⟩ := updateRow_row hupdate
    exact ⟨_, hrow, rfl, rfl, rfl⟩

theorem ensures_postgresCompareAndSwap :
    Ensures (Honest f ⟨epoch, f.withRevision next (expected + 1)⟩)
      (postgresCompareAndSwap f fresh epoch expected next).run [] := by
  have herror : ∀ e, Honest f ⟨epoch, f.withRevision next (expected + 1)⟩ (.error e) [] :=
    fun e => honest_error rfl
  unfold postgresCompareAndSwap
  refine ensures_lift_bind herror fun revision hrevision => ?_
  obtain rfl := nextRevision_eq_ok hrevision
  refine ensures_lift_bind herror fun encoded hencoded => ?_
  refine ensures_lift_bind herror fun _ _ => ?_
  refine ensures_lift_bind herror fun _ _ => ?_
  apply ensures_cas (fun _ => rfl)
  · intro db db' hexec
    exact (casStatement_wrote hexec).holds hencoded
  · intro uncertain log hclean
    apply ensures_observe_bind (ensures_loadStored.mono fun _ _ => reads_loaded)
    intro current log' hquiet hcurrent
    exact resolveUnchangedCas_honest hcurrent (hquiet ∘ hclean)

theorem operationStatement_wrote
    (h : (operationStatement epoch expected revision encoded stamp).exec db = some (db', true)) :
    Wrote epoch revision encoded db' := by
  simp only [operationStatement] at h
  split at h
  · cases h
  next tx hupdate =>
    split at h
    · cases h
    next tx' hinsert =>
      obtain ⟨rfl, -⟩ := Prod.mk.inj (Option.some.inj h)
      obtain ⟨generation, hrow⟩ := updateRow_row hupdate
      exact ⟨_, (insertCommitReceipt_row hinsert).trans hrow, rfl, rfl, rfl⟩

theorem hangangCasV2_wrote {stamp : SequencedOperationStamp}
    (h : (hangangCasV2 epoch expected revision encoded stamp).exec db = some (db', true)) :
    Wrote epoch revision encoded db' := by
  simp only [hangangCasV2] at h
  split at h
  · cases h
  · split at h
    · cases h
    next tx hupdate =>
      split at h
      · cases h
      · split at h
        · cases h
        next tx' hinsert =>
          split at h
          · obtain ⟨rfl, -⟩ := Prod.mk.inj (Option.some.inj h)
            obtain ⟨generation, hrow⟩ := updateRow_row hupdate
            rw [← insertSequencedReceipt_row hinsert, ← raiseHighWater_row, ← countRecord_row] at hrow
            exact ⟨_, hrow, rfl, rfl, rfl⟩
          · cases h

theorem receiptRecoveryRead_eq_ok {read : StoreResult α} {value : α}
    (h : receiptRecoveryRead read uncertain = .ok value) : read = .ok value := by
  unfold receiptRecoveryRead at h
  split at h
  · exact h
  · split at h <;> cases h

omit [DecidableEq Config] in
/-- **Recovery with a proof**: the current document is read back, and a failure to do so
    is definite only if the attempts were answered. -/
theorem ensures_recovery {q : Option (Observed Config) → Postgres (CasResult Config)}
    (hclean : uncertain = false → log.clean = true)
    (hq : ∀ current log', (uncertain = false → log'.clean = true) →
      (∀ c, current = some c → Durable f c.stored log'.seen) →
      Ensures (Honest f candidate) (q current).run log') :
    Ensures (Honest f candidate) (observe (loadStoredWithProof f fresh) >>= fun read =>
      lift (receiptRecoveryRead read uncertain) >>= q).run log := by
  apply ensures_observe_bind ensures_loadStoredWithProof
  intro read log' hquiet hread
  rw [ensures_call_bind, ensures_lift]
  cases hrecovery : receiptRecoveryRead read uncertain with
  | ok current =>
    exact hq current log' (hquiet ∘ hclean) (hread current (receiptRecoveryRead_eq_ok hrecovery))
  | error e =>
    cases huncertain : uncertain with
    | false => exact honest_error (hquiet (hclean huncertain))
    | true =>
      cases read with
      | ok value => cases hrecovery
      | error e' =>
        rw [huncertain] at hrecovery
        obtain rfl := Except.error.inj hrecovery
        trivial

theorem resolveOperationCas_honest {current : StoreResult (Option (Observed Config))}
    (hcurrent : ∀ found, current = .ok found → ∀ c, found = some c → Durable f c.stored log.seen)
    (hclean : uncertain = false → log.clean = true) :
    Honest f ⟨epoch, next⟩ (resolveOperationCas f current epoch next stamp uncertain) log := by
  unfold resolveOperationCas
  split
  next value =>
    simp only [resolveOperationCasRead]
    split
    · split
      next hsame =>
        obtain ⟨rfl, rfl, -⟩ := hsame
        exact ⟨rfl, hcurrent _ rfl _ rfl⟩
      next =>
        cases uncertain with
        | true => trivial
        | false => exact hclean rfl
    · cases uncertain with
      | true => trivial
      | false => exact hclean rfl
  next =>
    cases uncertain with
    | true => trivial
    | false => exact hclean rfl
  next e =>
    cases uncertain with
    | true => trivial
    | false => exact honest_error (hclean rfl)

omit [DecidableEq Config] in
/-- An outcome that stays open unless all attempts were answered. -/
theorem honest_settled {e e' : StoreError} (hopen : ∃ message, e = .indeterminate message)
    (hclean : uncertain = false → log.clean = true) :
    Ensures (Honest f candidate) (if uncertain then throw e else throw e' : Postgres _).run
      log := by
  obtain ⟨message, rfl⟩ := hopen
  cases uncertain with
  | true => trivial
  | false => exact honest_error (hclean rfl)

omit [DecidableEq Config] in
theorem stored_eq {stored : Stored Config} (hepoch : stored.epoch = epoch)
    (hconfig : stored.config = next) : stored = ⟨epoch, next⟩ := by
  rw [← hepoch, ← hconfig]

omit [DecidableEq Config] in
/-- The current document is the candidate, or it is not. -/
theorem honest_current {current : Stored Config} {P : Prop} [Decidable P] {message : String}
    (hdurable : Durable f current log.seen) (hP : P → current = candidate)
    (hclean : uncertain = false → log.clean = true) :
    Ensures (Honest f candidate) (if P then pure (.applied current)
      else if uncertain then throw (.indeterminate message)
      else pure (.conflict current) : Postgres _).run log := by
  split
  next hp =>
    obtain rfl := hP hp
    exact ⟨rfl, hdurable⟩
  next =>
    cases uncertain with
    | true => trivial
    | false => exact hclean rfl

omit [DecidableEq Config] in
/-- Unless it was asked, the store is not full. -/
theorem ensures_capacityExhausted {full : Bool} :
    Ensures (fun r log' => (log.clean = true → log'.clean = true) ∧ (r ≠ .ok false → full = true))
      (capacityExhausted f fresh epoch expected full).run log := by
  cases full with
  | false => exact ⟨id, fun h => absurd rfl h⟩
  | true =>
    show Ensures _ (loadStoredWithProof f fresh >>= _ : Postgres _).run log
    rw [ensures_call_bind]
    apply ensures_loadStoredWithProof.mono
    rintro (e | current) log' ⟨hquiet, -⟩
    · exact ⟨hquiet.clean, fun _ => rfl⟩
    · exact ⟨hquiet.clean, fun _ => rfl⟩

theorem ensures_postgresCompareAndSwapOperation :
    Ensures (Honest f ⟨epoch, f.withRevision next (expected + 1)⟩)
      (postgresCompareAndSwapOperation f fresh epoch expected next stamp).run [] := by
  have herror : ∀ e, Honest f ⟨epoch, f.withRevision next (expected + 1)⟩ (.error e) [] :=
    fun e => honest_error rfl
  unfold postgresCompareAndSwapOperation
  refine ensures_lift_bind herror fun _ _ => ?_
  refine ensures_lift_bind herror fun revision hrevision => ?_
  obtain rfl := nextRevision_eq_ok hrevision
  refine ensures_lift_bind herror fun encoded hencoded => ?_
  refine ensures_lift_bind herror fun _ _ => ?_
  refine ensures_lift_bind herror fun _ _ => ?_
  refine ensures_lift_bind herror fun _ _ => ?_
  apply ensures_cas (fun _ => rfl)
  · intro db db' hexec
    exact (operationStatement_wrote hexec).holds hencoded
  · intro uncertain log hclean
    apply ensures_observe_bind ensures_postgresReceiptObservation
    rintro (e | history) log' hquiet -
    · exact honest_settled ⟨_, rfl⟩ (hquiet ∘ hclean)
    · replace hclean := hquiet ∘ hclean
      dsimp only
      split
      next receipt hreceipt =>
        split
        · exact honest_settled ⟨_, rfl⟩ hclean
        · apply ensures_recovery hclean
          rintro (_ | current) log' hclean hcurrent
          · trivial
          · exact honest_current (hcurrent current rfl) (fun h => stored_eq h.1 h.2.1) hclean
      next =>
        rw [ensures_call_bind]
        apply ensures_capacityExhausted.mono
        rintro r log' ⟨hquiet, hasked⟩
        replace hclean := hquiet ∘ hclean
        -- the question is asked only after answered attempts
        have hclean' : r ≠ .ok false → log'.clean = true := fun hr =>
          hclean ((Bool.not_eq_true' _).mp (Bool.and_eq_true_iff.mp (hasked hr)).2)
        rcases r with e | full
        · exact honest_error (hclean' (by simp))
        · cases full with
          | true => exact hclean' (by simp)
          | false =>
            apply ensures_observe_bind ensures_loadStoredWithProof
            intro current log' hquiet hcurrent
            exact resolveOperationCas_honest hcurrent (hquiet ∘ hclean)

theorem ensures_postgresCompareAndSwapOperationV2 {stamp : SequencedOperationStamp} :
    Ensures (Honest f ⟨epoch, f.withRevision next (expected + 1)⟩)
      (postgresCompareAndSwapOperationV2 f fresh epoch expected next stamp).run [] := by
  have herror : ∀ e, Honest f ⟨epoch, f.withRevision next (expected + 1)⟩ (.error e) [] :=
    fun e => honest_error rfl
  unfold postgresCompareAndSwapOperationV2
  refine ensures_lift_bind herror fun _ _ => ?_
  refine ensures_lift_bind herror fun revision hrevision => ?_
  obtain rfl := nextRevision_eq_ok hrevision
  refine ensures_lift_bind herror fun encoded hencoded => ?_
  refine ensures_lift_bind herror fun _ _ => ?_
  refine ensures_lift_bind herror fun _ _ => ?_
  refine ensures_lift_bind herror fun _ _ => ?_
  -- everything before the statement is definite; what follows depends on its answer
  apply ensures_cas (fun _ => rfl)
  · intro db db' hexec
    exact (hangangCasV2_wrote hexec).holds hencoded
  · intro uncertain log hclean
    apply ensures_observe_bind ensures_postgresSequencedObservation
    rintro (e | observation) log' hquiet -
    · exact honest_settled ⟨_, rfl⟩ (hquiet ∘ hclean)
    · replace hclean := hquiet ∘ hclean
      dsimp only
      split
      -- a receipt is found: it decides, together with the current document
      next receipt hreceipt =>
        split
        · exact honest_settled ⟨_, rfl⟩ hclean
        · apply ensures_recovery hclean
          rintro (_ | current) log' hclean hcurrent
          · trivial
          · exact honest_current (hcurrent current rfl) (fun h => stored_eq h.1 h.2.1) hclean
      next =>
        apply ensures_recovery hclean
        rintro (_ | current) log' hclean hcurrent
        · trivial
        · cases uncertain with
          | true => trivial
          | false =>
            show Ensures _ (ExceptT.run (if false = true then _ else if _ then _ else _)) log'
            rw [if_neg (by simp)]
            split
            · exact hclean rfl
            · exact hclean rfl

theorem ensures_postgresCas (cas : Cas) :
    Ensures (Honest f ⟨epoch, f.withRevision next (expected + 1)⟩)
      (postgresCas f fresh epoch expected next cas).run [] := by
  cases cas with
  | plain => exact ensures_postgresCompareAndSwap
  | operation stamp => exact ensures_postgresCompareAndSwapOperation
  | sequenced stamp => exact ensures_postgresCompareAndSwapOperationV2

/-- What a call says about the world it returns in. -/
def Reported (f : Format Config) (epoch : Bytes) (expected : Nat) (next : Config)
    (w : World Db StoreError (StoreResult (CasResult Config))) :
    StoreResult (CasResult Config) → Prop
  | .ok (.applied stored) => stored = ⟨epoch, f.withRevision next (expected + 1)⟩ ∧
    ∃ db ∈ w.seen, ∃ row, db.row = some row ∧ row.epoch = epoch ∧
      Holds f (expected + 1) stored.config row
  | .ok (.conflict _) | .error (.invalid _) | .error (.unavailable _) =>
    w.effects = 0 ∧ ∀ s ∈ w.pending, s.counted = false
  | .error (.indeterminate _) => True

/-- **Lost acknowledgements are reported honestly.** Whatever becomes of the attempts of a
    compare-and-swap and of its recovery reads, and whatever other clients do to the
    database meanwhile:

    * `Applied` means that the candidate was the durable document at its epoch and
      revision at some moment during the call;
    * a conflict, and any error but `Indeterminate`, means that no attempt took effect, and
      that none is on its way. -/
theorem lost_acknowledgement_honest (f : Format Config) (cas : Cas) (fresh epoch : Bytes)
    (expected : Nat) (next : Config) (db : Db) {events : List (Remote.Event Db StoreError)}
    {w : World Db StoreError (StoreResult (CasResult Config))}
    {result : StoreResult (CasResult Config)}
    (hrun : machine.run (World.start db (postgresCas f fresh epoch expected next cas).run) events =
      some w) (hreturned : w.program = .done result) :
    Reported f epoch expected next w result := by
  obtain ⟨⟨hseen, hclean, -⟩, hhonest⟩ :=
    Remote.ensures_run (ensures_postgresCas cas) hrun hreturned
  rcases result with (message | message | message) | stored | current
  · exact hclean hhonest
  · exact hclean hhonest
  · trivial
  · obtain ⟨rfl, db, hdb, row, hrow, hepoch, hholds⟩ := hhonest
    rw [f.revision_withRevision] at hholds
    exact ⟨rfl, db, hseen db hdb, row, hrow, hepoch, hholds⟩
  · exact hclean hhonest

end calls

/-- The first attempt is executed and its answer is lost; the second one finds the
    revision taken, and reading back finds out by whom. -/
def lostAnswer : List (Remote.Event Db StoreError) :=
  [.connect none, .lose true, .late 0, .connect none, .answer, .connect none, .answer]

theorem lost_acknowledgement_found :
    ∃ w, machine.run (World.start (initial (some ⟨1, noteFormat.serialize (1, []), noteEpoch,
        .empty, 0⟩)) (postgresCas noteFormat [] noteEpoch 1 (0, [7]) .plain).run) lostAnswer =
        some w ∧ w.program = .done (.ok (.applied ⟨noteEpoch, (2, [7])⟩)) ∧
      ∃ db ∈ w.seen, ∃ row, db.row = some row ∧ row.epoch = noteEpoch ∧
        Holds noteFormat 2 (2, [7]) row := by
  obtain ⟨w, hrun, hreturned⟩ : ∃ w, machine.run (World.start (initial (some ⟨1,
      noteFormat.serialize (1, []), noteEpoch, .empty, 0⟩))
      (postgresCas noteFormat [] noteEpoch 1 (0, [7]) .plain).run) lostAnswer = some w ∧
      w.program = .done (.ok (.applied ⟨noteEpoch, (2, [7])⟩)) := ⟨_, rfl, rfl⟩
  exact ⟨w, hrun, hreturned, (lost_acknowledgement_honest noteFormat .plain [] noteEpoch 1 (0, [7])
    _ hrun hreturned).2⟩

end ConfigStore
