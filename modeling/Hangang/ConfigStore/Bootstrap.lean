import Hangang.ConfigStore.Honesty

/-! # Bootstrap

    `bootstrap` inserts a seed unless the store has a document, and reads the document
    back. The insertion and the read fail independently, each with or without an
    answer. An insertion whose answer was lost is reported as `Indeterminate` when the
    read does not settle it. One that was answered is not: if it took effect and the
    read fails, the call says that nothing was changed. -/

open Bytes Except Remote

namespace ConfigStore

open Postgres

variable {Config : Type} (f : Format Config) (fresh : Bytes)

/-- `INSERT .. ON CONFLICT DO NOTHING`. -/
def insertStatement (revision : Nat) (encoded epoch : Bytes) : Statement Db where
  exec db := some (db.row.elim
    ({ db with row := some ⟨revision, encoded, epoch, .empty, 0⟩ }, true) fun _ => (db, false))
  counted := true

/-- `resolve_bootstrap_read`. -/
def resolveBootstrapRead (current : StoreResult (Option (Stored Config))) (uncertain : Bool) :
    StoreResult (Stored Config) :=
  match current with
  | .ok (some stored) => .ok stored
  | .ok none =>
    if uncertain then .error (.indeterminate
      "the bootstrap insert was not acknowledged and the store is empty now")
    else .error (.invalid "PostgreSQL bootstrap did not produce a snapshot")
  | .error e =>
    if uncertain then .error (.indeterminate
      "the bootstrap insert was not acknowledged and re-reading the store failed")
    else .error e

/-- `PostgresConfigStore::bootstrap`. Drawing the epoch may fail, too. -/
def bootstrap (seed : Config) (epoch : StoreResult Bytes) : Postgres (Stored Config) := do
  let encoded ← lift (f.encode seed)
  lift (revisionToI64 (f.revision seed))
  let epoch ← lift epoch
  let attempted ← run .mutation (write (insertStatement (f.revision seed) encoded epoch))
  let current ← observe (loadStored f fresh)
  lift (resolveBootstrapRead current attempted.uncertain)

/-! ## What the log says about the verdict -/

/-- If the insertion was answered that it took effect, and no attempt of it was lost,
    then a row was found that can be decoded. -/
def ReadBack (f : Format Config) (log : Log Db StoreError) : Prop :=
  log.landed = true → (∀ s, .lost s ∈ log → s.counted = false) →
    ∃ db, .found db ∈ log ∧ Readable f db

/-- The call says that nothing was changed. -/
def Definite {α : Type} : StoreResult α → Prop
  | .ok _ | .error (.indeterminate _) => False
  | .error (.unavailable _) | .error (.invalid _) => True

/-- What a verdict says about the log, and a log about the verdict. -/
structure Verdict (f : Format Config) (r : StoreResult (Stored Config))
    (log : Log Db StoreError) : Prop where
  durable : ∀ stored, r = .ok stored → Durable f stored log.seen
  definite : Definite r → log.clean = true ∨ ¬ ReadBack f log
  readBack : (∀ message, .unconnected (.indeterminate message) ∉ log) → ¬ FoundOld log →
    Definite r ∨ ReadBack f log

section verdicts

variable {f} {log log' : Log Db StoreError}

/-- The call ends before its insertion was answered. -/
theorem verdict_error {e : StoreError} (hlanded : log.landed = false)
    (hclean : (∀ message, e ≠ .indeterminate message) → log.clean = true) :
    Verdict f (.error e) log := by
  refine ⟨fun _ h => (by cases h), fun hdefinite => .inl (hclean ?_), fun _ _ => .inr fun h => ?_⟩
  · rintro message rfl
    exact hdefinite
  · rw [hlanded] at h
    cases h

theorem landed_of_clean (h : log.clean = true) : log.landed = false := by
  rw [Log.landed, List.any_eq_false]
  intro n hn hlanded
  have hclean := List.all_eq_true.mp h n hn
  cases n with
  | executed s db changed =>
    rw [Notice.clean, show (s.counted && changed) = true from hlanded] at hclean
    cases hclean
  | _ => cases hlanded

variable {s : Statement Db} {db : Db} {value : Bool}

/-- Nothing readable was found after an answered insertion. -/
theorem unread_insertion (h : Log.Since (Unread f) [.executed s db value] log') :
    log'.clean = true ∨ ¬ ReadBack f log' := by
  obtain ⟨since, rfl, hsince⟩ := h
  cases hlanded : s.counted && value with
  | false =>
    refine .inl ?_
    rw [Log.clean, List.all_append, Bool.and_eq_true]
    refine ⟨List.all_eq_true.mpr fun n hn => (hsince n hn).1, ?_⟩
    rw [List.all_cons, Notice.clean, hlanded]
    rfl
  | true =>
    -- the answer counts, nothing was lost and no row can be decoded
    refine .inr fun hread => ?_
    obtain ⟨db', hfound, hreadable⟩ := hread
      (List.any_eq_true.mpr ⟨_, List.mem_append_right _ List.mem_cons_self, hlanded⟩) fun t ht => by
        rcases List.mem_append.mp ht with hmem | hmem
        · exact (Bool.not_eq_true' _).mp (hsince _ hmem).1
        · cases List.mem_singleton.mp hmem
    rcases List.mem_append.mp hfound with hmem | hmem
    · exact (hsince _ hmem).2 db' rfl hreadable
    · cases List.mem_singleton.mp hmem

/-- An attempt was lost: the verdict stays open. -/
theorem verdict_uncertain {message : String} (hs : s.counted = true) (hlost : .lost s ∈ log') :
    Verdict f (.error (.indeterminate message)) log' := by
  refine ⟨fun _ h => (by cases h), fun h => h.elim, fun _ _ => .inr fun _ hanswered => ?_⟩
  rw [hanswered s hlost] at hs
  cases hs

/-- **Verdict**: what `resolve_bootstrap_read` makes of the read. -/
theorem verdict_resolved {current : StoreResult (Option (Stored Config))} {uncertain : Bool}
    (hs : s.counted = true)
    (h : Loaded f (.executed s db value :: if uncertain then [.lost s] else []) current log') :
    Verdict f (resolveBootstrapRead current uncertain) log' := by
  have hlost : ∀ {N : Notice Db StoreError → Prop},
      Log.Since N [.executed s db value, .lost s] log' → .lost s ∈ log' := by
    rintro N ⟨since, rfl, -⟩
    exact List.mem_append_right _ (List.mem_cons_of_mem _ List.mem_cons_self)
  rcases current with e | _ | stored
  · obtain ⟨hunread, hopen⟩ := h
    cases uncertain with
    | true => exact verdict_uncertain hs (hlost hunread)
    | false =>
      refine ⟨fun _ h => (by cases h), fun _ => unread_insertion hunread, fun hconnected hnew => ?_⟩
      cases e with
      | unavailable message => exact .inl trivial
      | invalid message => exact .inl trivial
      | indeterminate message =>
        rcases hopen message rfl with hmem | hold
        · exact absurd hmem (hconnected message)
        · exact absurd hold hnew
  · cases uncertain with
    | true => exact verdict_uncertain hs (hlost h)
    | false =>
      exact ⟨fun _ h => (by cases h), fun _ => unread_insertion h, fun _ _ => .inl trivial⟩
  · obtain ⟨-, db', row, hfound, hrow, hdecode⟩ := h
    refine ⟨fun found heq => ?_, fun h => h.elim,
      fun _ _ => .inr fun _ _ => ⟨db', hfound, row, hrow, stored, hdecode⟩⟩
    cases heq
    exact durable_found hfound hrow hdecode

end verdicts

theorem ensures_bootstrap {seed : Config} {epoch : StoreResult Bytes} :
    Ensures (Verdict f) (bootstrap f fresh seed epoch).run [] := by
  have hearly : ∀ e, Verdict f (.error e) [] := fun e => verdict_error rfl fun _ => rfl
  unfold bootstrap
  refine ensures_lift_bind hearly fun encoded _ => ?_
  refine ensures_lift_bind hearly fun _ _ => ?_
  refine ensures_lift_bind hearly fun epoch _ => ?_
  rw [ensures_call_bind]
  apply ensures_attempts.mono
  rintro (e | ⟨value, uncertain⟩) log hattempts
  · have hclean : Log.Since Upkeep [] log → log.clean = true := fun h =>
      (h.mono fun _ => And.left).clean rfl
    cases e with
    | indeterminate message => exact verdict_error hattempts fun h => absurd rfl (h message)
    | unavailable message =>
      exact verdict_error (landed_of_clean (hclean hattempts)) fun _ => hclean hattempts
    | invalid message =>
      exact verdict_error (landed_of_clean (hclean hattempts)) fun _ => hclean hattempts
  · obtain ⟨db, db', -, rfl⟩ := hattempts
    show Ensures _ (observe (loadStored f fresh) >>= _ : Postgres _).run _
    rw [ensures_call_bind, ensures_observe]
    apply ensures_loadStored.mono
    exact fun current log' h => verdict_resolved rfl h

/-- What `bootstrap` says about the world it returns in. -/
def Seeded (f : Format Config) (w : World Db StoreError (StoreResult (Stored Config))) :
    StoreResult (Stored Config) → Prop
  | .ok stored => Durable f stored w.seen
  | .error (.indeterminate _) => True
  | .error _ => w.Clean

/-- **Bootstrap is honest exactly when an answered insertion is read back.** Whatever
    becomes of the attempts and of the read, and whatever other clients do meanwhile, if
    an insertion that was answered is read back: an error other than `Indeterminate`
    means that no attempt took effect and that none is on its way, and a document that
    is returned was durable during the call.

    It is needed, too, when connecting fails definitely, as `client` does, and other
    clients put no document back from before there were epochs: giving it one may
    itself be `Indeterminate`. -/
theorem bootstrap_honest_iff (seed : Config) (epoch : StoreResult Bytes) (db : Db)
    {events : List (Remote.Event Db StoreError)}
    {w : World Db StoreError (StoreResult (Stored Config))} {result : StoreResult (Stored Config)}
    (hrun : machine.run (World.start db (bootstrap f fresh seed epoch).run) events = some w)
    (hreturned : w.program = .done result) :
    (ReadBack f w.log → Seeded f w result) ∧
    ((∀ message, .unconnected (.indeterminate message) ∉ w.log) → ¬ FoundOld w.log →
      (Seeded f w result ↔ ReadBack f w.log)) := by
  obtain ⟨⟨hseen, hclean, hlanded⟩, hdurable, hdefinite, hreadBack⟩ :=
    Remote.ensures_run (ensures_bootstrap f fresh) hrun hreturned
  have hhonest : ReadBack f w.log → Seeded f w result := by
    intro hread
    rcases result with (message | message | message) | stored
    · exact hclean ((hdefinite trivial).resolve_right (not_not_intro hread))
    · exact hclean ((hdefinite trivial).resolve_right (not_not_intro hread))
    · trivial
    · obtain ⟨db, hdb, hrow⟩ := hdurable stored rfl
      exact ⟨db, hseen db hdb, hrow⟩
  refine ⟨hhonest, fun hconnected hnew => ⟨fun hseeded => ?_, hhonest⟩⟩
  rcases hreadBack hconnected hnew with hsaid | hread
  · -- a definite error is true, so nothing was answered to have taken effect
    intro hinserted
    have hpos : 0 < w.effects := hlanded hinserted
    have hworld : w.Clean := by
      rcases result with (message | message | message) | stored
      · exact hseeded
      · exact hseeded
      · exact hsaid.elim
      · exact hsaid.elim
    rw [hworld.1] at hpos
    cases hpos
  · exact hread

/-- An empty store is seeded, and the seed is read back. -/
theorem bootstrap_honest_note :
    ∃ w, machine.run (World.start (initial none)
        (bootstrap noteFormat [] (1, [7]) (.ok noteEpoch)).run)
        [.connect none, .answer, .connect none, .answer] = some w ∧
      w.program = .done (.ok ⟨noteEpoch, (1, [7])⟩) ∧ w.effects = 1 ∧
      Seeded noteFormat w (.ok ⟨noteEpoch, (1, [7])⟩) := by
  obtain ⟨w, hrun, hreturned, heffects, hlog⟩ : ∃ w, machine.run (World.start (initial none)
        (bootstrap noteFormat [] (1, [7]) (.ok noteEpoch)).run)
        [.connect none, .answer, .connect none, .answer] = some w ∧
      w.program = .done (.ok ⟨noteEpoch, (1, [7])⟩) ∧ w.effects = 1 ∧
      w.log.head? = some (.found (initial (some ⟨1, noteFormat.serialize (1, [7]), noteEpoch,
        .empty, 0⟩))) := ⟨_, rfl, rfl, rfl, rfl⟩
  refine ⟨w, hrun, hreturned, heffects, ?_⟩
  apply (bootstrap_honest_iff noteFormat [] (1, [7]) (.ok noteEpoch) (initial none) hrun
    hreturned).1
  exact fun _ _ => ⟨_, List.mem_of_head? hlog, _, rfl, _, rfl⟩

/-- The seed is inserted and the insertion answered; then the read fails twice. The call
    says that the store was unavailable and nothing changed. -/
theorem bootstrap_hides_seed :
    ∃ w message, machine.run (World.start (initial none)
        (bootstrap noteFormat [] (1, [7]) (.ok noteEpoch)).run)
        [.connect none, .answer, .connect none, .lose false, .connect none, .lose false] =
        some w ∧
      w.program = .done (.error (.unavailable message)) ∧ w.effects = 1 ∧
      w.db.row = some ⟨1, noteFormat.serialize (1, [7]), noteEpoch, .empty, 0⟩ :=
  ⟨_, _, rfl, rfl, rfl, rfl⟩

end ConfigStore
