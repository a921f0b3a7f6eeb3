import Hangang.Cache.Disk
import Hangang.Framework.Except

/-! # The Quota of the Disk Tier

    `DiskStore::put` statement by statement, on a store that is open. A round is one transaction:
    it expires, evicts for the limits of the configuration, evicts more where SQLite was full
    before, and inserts. Every statement may fail, with `SQLITE_FULL` or otherwise, and then the
    round has done nothing; what a round has done counts when its commit succeeds.

    * **Rounds**, with a loop over the victims that has no bound of its own.
    * **Victims**: the loop takes them in order and only while they are needed, and it ends.
    * **The quota** holds after what was stored, although the loop may end with a limit unmet:
      the sizes that would be too large are turned away before. -/

open Bytes

namespace Cache

namespace Quota

/-! ## Statements -/

/-- What SQLite reports about a statement. -/
inductive Reply where
  | done
  /-- `SQLITE_FULL` -/
  | full
  | failed
  deriving DecidableEq, Repr

inductive InsertFailure where
  | full (emptied : Bool)
  | other
  deriving DecidableEq, Repr

inductive PutError where
  /-- What a statement of a round failed with. -/
  | statement
  /-- What the query of `refresh_disk_stats` failed with. -/
  | statistics
  /-- "disk cache remained physically full after eviction" -/
  | remainedFull
  deriving DecidableEq, Repr

inductive Outcome where
  | stored
  | bypassed
  | error (error : PutError)
  deriving DecidableEq, Repr

/-- `full_or_other` of what a statement reports. -/
def statement (reply : Reply) (emptied : Bool) : Except InsertFailure Unit :=
  match reply with
  | .done => .ok ()
  | .full => .error (.full emptied)
  | .failed => .error .other

/-! ## Rounds -/

/-- The order of eviction: by the column of the policy, then by the hash. -/
def precedes (eviction : Eviction) (a b : Row) : Prop :=
  a.sequence eviction < b.sequence eviction ∨
    a.sequence eviction = b.sequence eviction ∧ a.keyHash ≤ b.keyHash

instance (eviction : Eviction) (a b : Row) : Decidable (precedes eviction a b) :=
  inferInstanceAs (Decidable (_ ∨ _))

/-- The row that `ORDER BY .. LIMIT 1` selects. -/
def victim (eviction : Eviction) : List Row → Option Row
  | [] => none
  | row :: rows =>
    some ((victim eviction rows).elim row fun best =>
      if precedes eviction row best then row else best)

/-- The variables of the loop, with the rows of the transaction. -/
structure Progress where
  rows : List Row
  count : Nat
  bytes : Nat
  freed : Nat

/-- A limit is exceeded, or not enough has been freed. -/
def Requires (config : DiskConfig) (size : Nat) (target : Option Nat) (count bytes freed : Nat) :
    Prop :=
  (config.maxEntries < count + 1 ∨ config.maxBytes < bytes + size) ∨
    target.any (freed < ·) = true

instance (config : DiskConfig) (size : Nat) (target : Option Nat) (count bytes freed : Nat) :
    Decidable (Requires config size target count bytes freed) :=
  inferInstanceAs (Decidable (_ ∨ _))

/-- The loop of `insert_round`, for as many turns as it is given; `none` says that it needs more.
    A turn is the query for the size of the victim, and its deletion. The number of the next
    statement is returned, too. -/
def evictLoop (reply : Nat → Reply) (config : DiskConfig) (size : Nat) (target : Option Nat) :
    Nat → Nat → Progress → Option (Except InsertFailure (Progress × Nat))
  | 0, _, _ => none
  | fuel + 1, n, p =>
    if Requires config size target p.count p.bytes p.freed then
      -- an error of the query is not looked into for `SQLITE_FULL`
      if reply n = .done then
        match victim config.eviction p.rows with
        | none => some (.ok (p, n + 1))
        | some row =>
          match statement (reply (n + 1)) false with
          | .error failure => some (.error failure)
          | .ok () => evictLoop reply config size target fuel (n + 2)
              ⟨p.rows.filter fun r => r.keyHash ≠ row.keyHash, p.count - 1,
                p.bytes - row.objectSize, saturatingAdd p.freed row.objectSize⟩
      else some (.error .other)
    else some (.ok (p, n))

/-- The rows behind the first deletions of a round. -/
def candidates (now : UInt64) (row : Row) (rows : List Row) : List Row :=
  (rows.filter fun r => !r.expired now).filter fun r => r.keyHash ≠ row.keyHash

/-- What a round is asked to free. -/
def pressureTarget (size : Nat) (pressure : Option Nat) : Option Nat :=
  pressure.map fun multiple => min (size * multiple) (2 ^ 64 - 1)

/-- The statements before the loop: `BEGIN`, the deletions and the totals. -/
def openRound (reply : Nat → Reply) : Except InsertFailure Unit := do
  statement (reply 0) false
  statement (reply 1) false
  statement (reply 2) false
  statement (reply 3) false

/-- `insert_round`: the rows that it commits. -/
def insertRound (reply : Nat → Reply) (config : DiskConfig) (fuel : Nat) (now : UInt64) (row : Row)
    (pressure : Option Nat) (rows : List Row) : Option (Except InsertFailure (List Row)) :=
  match openRound reply with
  | .error failure => some (.error failure)
  | .ok () =>
    let rows := candidates now row rows
    let target := pressureTarget row.objectSize pressure
    (evictLoop reply config row.objectSize target fuel 4
      ⟨rows, rows.length, (rows.map Row.objectSize).sum, 0⟩).map fun evicted => do
        let (p, n) ← evicted
        -- the insert and the commit
        statement (reply n) (p.count == 0)
        statement (reply (n + 1)) (p.count == 0)
        return p.rows ++ [row]

/-! ## `put` -/

structure Store where
  rows : List Row
  sequence : Nat
  unfittable : Nat

/-- What the rounds of a call meet: the reports of SQLite, and the time. -/
structure Weather where
  reply : Nat → Nat → Reply
  now : Nat → UInt64
  /-- `refresh_disk_stats` succeeds. -/
  statistics : Bool

/-- `refresh_disk_stats(..)?` before an outcome. -/
def refreshed (w : Weather) (outcome : Outcome) : Outcome :=
  if w.statistics = true then outcome else .error .statistics

def putRounds (w : Weather) (config : DiskConfig) (fuel : Nat) (row : Row) (store : Store) :
    Nat → List (Option Nat) → Option (Outcome × Store)
  | _, [] => some (.error .remainedFull, store)
  | round, pressure :: pressures =>
    match insertRound (w.reply round) config fuel (w.now round) row pressure store.rows with
    | none => none
    | some (.ok rows) => some (refreshed w .stored, { store with rows := rows })
    | some (.error (.full true)) =>
      some (refreshed w .bypassed,
        { store with unfittable := min store.unfittable row.objectSize })
    | some (.error (.full false)) => putRounds w config fuel row store (round + 1) pressures
    | some (.error .other) => some (.error .statement, store)

/-- The row that is inserted. -/
def newRow (hash : Bytes) (entry : CacheEntry) (size sequence : Nat) : Row :=
  ⟨hash, entry, asI64 (expiresAtMs entry), size, sequence, sequence⟩

/-- `DiskStore::put` behind `ensure_open`. -/
def put (w : Weather) (config : DiskConfig) (fuel : Nat) (hash : Bytes) (entry : CacheEntry)
    (size : Nat) (store : Store) : Option (Outcome × Store) :=
  if store.unfittable ≤ size ∨ diskPageBudget config - 1 < estimatedPages size then
    some (.bypassed, store)
  else
    let sequence := nextSequence store.sequence
    putRounds w config fuel (newRow hash entry size sequence)
      { store with sequence := sequence } 0 fullRecoveryPressure

/-! ## Victims -/

section victims

variable {eviction : Eviction} {config : DiskConfig} {size : Nat} {target : Option Nat}
  {rows rest : List Row} {row : Row}

theorem precedes_refl (eviction : Eviction) (a : Row) : precedes eviction a a :=
  .inr ⟨rfl, List.le_refl _⟩

theorem precedes_trans {a b c : Row} (hab : precedes eviction a b) (hbc : precedes eviction b c) :
    precedes eviction a c := by
  rcases hab with hab | ⟨hab, hhash⟩
  · rcases hbc with hbc | ⟨hbc, -⟩
    · exact .inl (hab.trans hbc)
    · exact .inl (hbc ▸ hab)
  · rcases hbc with hbc | ⟨hbc, hhash'⟩
    · exact .inl (hab ▸ hbc)
    · exact .inr ⟨hab.trans hbc, List.le_trans hhash hhash'⟩

theorem precedes_of_not {a b : Row} (h : ¬ precedes eviction a b) : precedes eviction b a := by
  rcases Nat.lt_trichotomy (a.sequence eviction) (b.sequence eviction) with hlt | heq | hgt
  · exact absurd (.inl hlt) h
  · rcases List.le_total a.keyHash b.keyHash with hle | hle
    · exact absurd (.inr ⟨heq, hle⟩) h
    · exact .inr ⟨heq.symm, hle⟩
  · exact .inl hgt

theorem victim_eq_none : victim eviction rows = none ↔ rows = [] := by
  cases rows with
  | nil => exact iff_of_true rfl rfl
  | cons row rows => simp [victim]

/-- The victim comes before every other row. -/
theorem victim_spec (h : victim eviction rows = some row) :
    row ∈ rows ∧ ∀ r ∈ rows, precedes eviction row r := by
  induction rows generalizing row with
  | nil => cases h
  | cons first rows ih =>
    obtain rfl := Option.some.inj h
    cases hbest : victim eviction rows with
    | none =>
      obtain rfl := victim_eq_none.mp hbest
      refine ⟨List.mem_cons_self, fun r hr => ?_⟩
      rw [List.mem_singleton.mp hr]
      exact precedes_refl eviction first
    | some best =>
      obtain ⟨hmem, hleast⟩ := ih hbest
      rw [Option.elim_some]
      split
      · next hfirst =>
        refine ⟨List.mem_cons_self, fun r hr => ?_⟩
        rcases List.mem_cons.mp hr with rfl | hr
        · exact precedes_refl eviction r
        · exact precedes_trans hfirst (hleast r hr)
      · next hfirst =>
        refine ⟨List.mem_cons_of_mem first hmem, fun r hr => ?_⟩
        rcases List.mem_cons.mp hr with rfl | hr
        · exact precedes_of_not hfirst
        · exact hleast r hr

/-- Rows are taken one by one, each the first in order of what is left, while the rest is too much
    for the limits or too little has been freed. -/
inductive Evicted (config : DiskConfig) (size : Nat) (target : Option Nat) :
    Nat → List Row → List Row → List Row → Prop
  | nothing (freed : Nat) (rows : List Row) : Evicted config size target freed rows [] rows
  | take {freed : Nat} {rows victims rest : List Row} {row : Row}
      (hrequired : Requires config size target rows.length (rows.map Row.objectSize).sum freed)
      (hmem : row ∈ rows) (hfirst : ∀ r ∈ rows, precedes config.eviction row r)
      (hrest : Evicted config size target (saturatingAdd freed row.objectSize)
        (rows.filter fun r => r.keyHash ≠ row.keyHash) victims rest) :
      Evicted config size target freed rows (row :: victims) rest

/-- The table has one row of a hash, so that deleting a hash deletes a row. -/
theorem filter_hash (hnodup : (rows.map Row.keyHash).Nodup) (hmem : row ∈ rows) :
    (rows.filter fun r => r.keyHash ≠ row.keyHash).length + 1 = rows.length ∧
      ((rows.filter fun r => r.keyHash ≠ row.keyHash).map Row.objectSize).sum + row.objectSize =
        (rows.map Row.objectSize).sum := by
  induction rows with
  | nil => cases hmem
  | cons first rows ih =>
    rw [List.map_cons, List.nodup_cons] at hnodup
    rcases List.mem_cons.mp hmem with rfl | hmem
    · have hall : rows.filter (fun r => r.keyHash ≠ row.keyHash) = rows := by
        refine List.filter_eq_self.mpr fun r hr => ?_
        rw [decide_eq_true_eq]
        exact fun heq => hnodup.1 (heq ▸ List.mem_map_of_mem hr)
      rw [List.filter_cons_of_neg (by simp), hall]
      exact ⟨rfl, by rw [List.map_cons, List.sum_cons, Nat.add_comm]⟩
    · have hne : first.keyHash ≠ row.keyHash :=
        fun heq => hnodup.1 (heq ▸ List.mem_map_of_mem hmem)
      obtain ⟨hlength, hsum⟩ := ih hnodup.2 hmem
      rw [List.filter_cons_of_pos (by simpa using hne), List.length_cons, List.map_cons,
        List.sum_cons, List.length_cons, List.map_cons, List.sum_cons]
      omega

theorem nodup_filter (hnodup : (rows.map Row.keyHash).Nodup) (p : Row → Bool) :
    ((rows.filter p).map Row.keyHash).Nodup :=
  hnodup.sublist (List.filter_sublist.map Row.keyHash)

/-- What is left is a part of what was there. -/
theorem Evicted.subset {freed : Nat} {victims : List Row}
    (h : Evicted config size target freed rows victims rest) : rest ⊆ rows := by
  induction h with
  | nothing => exact List.Subset.refl _
  | take _ _ _ _ ih => exact List.Subset.trans ih (List.filter_subset_self _)

theorem Evicted.nodup {freed : Nat} {victims : List Row}
    (h : Evicted config size target freed rows victims rest)
    (hnodup : (rows.map Row.keyHash).Nodup) : (rest.map Row.keyHash).Nodup := by
  induction h with
  | nothing => exact hnodup
  | take _ _ _ _ ih => exact ih (nodup_filter hnodup _)

end victims

/-! ## The loop -/

section rounds

variable {reply : Nat → Reply} {config : DiskConfig} {size fuel : Nat} {target : Option Nat}
  {row : Row} {rows : List Row}

/-- The variables of the loop are the totals of the rows. -/
structure Progress.Exact (p : Progress) : Prop where
  nodup : (p.rows.map Row.keyHash).Nodup
  count : p.count = p.rows.length
  bytes : p.bytes = (p.rows.map Row.objectSize).sum

/-- The totals keep up with a deletion. -/
theorem Progress.Exact.delete {p : Progress} (h : p.Exact) (hmem : row ∈ p.rows) :
    Progress.Exact ⟨p.rows.filter fun r => r.keyHash ≠ row.keyHash, p.count - 1,
      p.bytes - row.objectSize, saturatingAdd p.freed row.objectSize⟩ := by
  obtain ⟨hlength, hsum⟩ := filter_hash h.nodup hmem
  have hcount := h.count
  have hbytes := h.bytes
  refine ⟨nodup_filter h.nodup _, ?_, ?_⟩
  · dsimp only
    omega
  · dsimp only
    omega

/-- From the nth statement on, the statements succeed until one finds SQLite full. -/
inductive FullFrom (reply : Nat → Reply) : Nat → Prop
  | here {n : Nat} (hfull : reply n = .full) : FullFrom reply n
  | next {n : Nat} (hdone : reply n = .done) (hrest : FullFrom reply (n + 1)) : FullFrom reply n

/-- What the loop leaves when it ends: nothing more is required, or nothing more is there. -/
structure Ended (config : DiskConfig) (size : Nat) (target : Option Nat) (p p' : Progress) :
    Prop where
  exact : p'.Exact
  evicted : ∃ victims, Evicted config size target p.freed p.rows victims p'.rows
  enough : ¬ Requires config size target p'.count p'.bytes p'.freed ∨ p'.rows = []

/-- The loop ends after at most one turn for each row, with all its statements done or at the
    first that is not. -/
theorem evictLoop_ends {p : Progress} (h : p.Exact) (hfuel : p.rows.length < fuel) (n : Nat) :
    ∃ result, evictLoop reply config size target fuel n p = some result ∧
      (∀ p' n', result = .ok (p', n') → Ended config size target p p' ∧
        (FullFrom reply n' → FullFrom reply n)) ∧
      ∀ emptied, result = .error (.full emptied) → FullFrom reply n := by
  induction fuel generalizing p n with
  | zero => exact absurd hfuel (Nat.not_lt_zero _)
  | succ fuel ih =>
    rw [evictLoop]
    split
    · next hrequired =>
      split
      · next hquery =>
        cases hvictim : victim config.eviction p.rows with
        | none =>
          refine ⟨_, rfl, fun p' n' hok => ?_, fun emptied herror => by cases herror⟩
          obtain ⟨rfl, rfl⟩ := Except.ok_pair_inj hok
          exact ⟨⟨h, ⟨[], .nothing _ _⟩, .inr (victim_eq_none.mp hvictim)⟩, .next hquery⟩
        | some row =>
          obtain ⟨hmem, hfirst⟩ := victim_spec hvictim
          dsimp only
          cases hreply : reply (n + 1) with
          | full =>
            refine ⟨_, rfl, fun p' n' hok => (by cases hok), fun emptied herror => ?_⟩
            exact .next hquery (.here hreply)
          | failed =>
            exact ⟨_, rfl, fun p' n' hok => (by cases hok), fun emptied herror => by cases herror⟩
          | done =>
            have hnext := h.delete hmem
            have hless := (filter_hash h.nodup hmem).1
            obtain ⟨result, hresult, hended, hfull⟩ := ih hnext (by dsimp only; omega) (n + 2)
            refine ⟨result, hresult, fun p' n' hok => ?_, fun emptied herror =>
              .next hquery (.next hreply (hfull emptied herror))⟩
            obtain ⟨⟨hexact, ⟨victims, hevicted⟩, henough⟩, hlater⟩ := hended p' n' hok
            rw [h.count, h.bytes] at hrequired
            exact ⟨⟨hexact, ⟨row :: victims, .take hrequired hmem hfirst hevicted⟩, henough⟩,
              fun hlast => .next hquery (.next hreply (hlater hlast))⟩
      · exact ⟨_, rfl, fun p' n' hok => (by cases hok), fun emptied herror => by cases herror⟩
    · next hrequired =>
      refine ⟨_, rfl, fun p' n' hok => ?_, fun emptied herror => by cases herror⟩
      obtain ⟨rfl, rfl⟩ := Except.ok_pair_inj hok
      exact ⟨⟨h, ⟨[], .nothing _ _⟩, .inl hrequired⟩, id⟩

/-- A statement, and what comes behind it where it succeeds. -/
theorem fullFrom_of_statement {α : Type} {next : Unit → Except InsertFailure α} {n : Nat}
    {emptied b : Bool} (h : statement (reply n) emptied >>= next = .error (.full b))
    (hnext : next () = .error (.full b) → FullFrom reply (n + 1)) : FullFrom reply n := by
  cases hreply : reply n with
  | done =>
    rw [hreply] at h
    exact .next hreply (hnext h)
  | full => exact .here hreply
  | failed =>
    rw [hreply] at h
    cases h

/-! ## What is committed -/

/-- A round has committed the candidates without its victims, and the new row, and is within the
    limits. -/
structure Inserted (config : DiskConfig) (now : UInt64) (row : Row) (pressure : Option Nat)
    (rows rows' : List Row) : Prop where
  parts : ∃ victims rest,
    Evicted config row.objectSize (pressureTarget row.objectSize pressure) 0
      (candidates now row rows) victims rest ∧ rows' = rest ++ [row]
  entries : rows'.length ≤ config.maxEntries
  bytes : (rows'.map Row.objectSize).sum ≤ config.maxBytes

theorem Inserted.nodup {now : UInt64} {pressure : Option Nat} {rows' : List Row}
    (h : Inserted config now row pressure rows rows') (hnodup : (rows.map Row.keyHash).Nodup) :
    (rows'.map Row.keyHash).Nodup := by
  obtain ⟨victims, rest, hevicted, rfl⟩ := h.parts
  have hrest := hevicted.nodup (nodup_filter (nodup_filter hnodup _) _)
  rw [List.map_append, List.nodup_append]
  refine ⟨hrest, List.nodup_singleton _, ?_⟩
  rintro hash hmem _ hnew rfl
  obtain ⟨r, hr, rfl⟩ := List.mem_map.mp hmem
  have hne := (List.mem_filter.mp (hevicted.subset hr)).2
  exact of_decide_eq_true hne (List.mem_singleton.mp hnew)

/-- A loop that ends within the limits, or with no row at all, is within the limits: the new row
    alone is. -/
theorem Ended.limits {p p' : Progress} (h : Ended config size target p p')
    (hsize : size ≤ config.maxBytes) (hentries : 1 ≤ config.maxEntries) :
    p'.rows.length + 1 ≤ config.maxEntries ∧
      (p'.rows.map Row.objectSize).sum + size ≤ config.maxBytes := by
  rcases h.enough with henough | hempty
  · have hlogical := (not_or.mp henough).1
    rw [h.exact.count, h.exact.bytes] at hlogical
    omega
  · rw [hempty, List.length_nil, List.map_nil, List.sum_nil]
    omega

/-- A round with its statements before the loop. -/
theorem fullFrom_openRound {α : Type} {next : Unit → Except InsertFailure α} {b : Bool}
    (h : openRound reply >>= next = .error (.full b))
    (hnext : next () = .error (.full b) → FullFrom reply 4) : FullFrom reply 0 := by
  unfold openRound at h
  simp only [bind_assoc] at h
  refine fullFrom_of_statement h fun h => fullFrom_of_statement h fun h => ?_
  exact fullFrom_of_statement h fun h => fullFrom_of_statement h hnext

theorem insertRound_spec (hnodup : (rows.map Row.keyHash).Nodup) (hfuel : rows.length < fuel)
    (hsize : row.objectSize ≤ config.maxBytes) (hentries : 1 ≤ config.maxEntries) (now : UInt64)
    (pressure : Option Nat) :
    ∃ result, insertRound reply config fuel now row pressure rows = some result ∧
      (∀ rows', result = .ok rows' → Inserted config now row pressure rows rows') ∧
      ∀ emptied, result = .error (.full emptied) → FullFrom reply 0 := by
  unfold insertRound
  cases hopen : openRound reply with
  | error failure =>
    refine ⟨_, rfl, fun rows' hok => (by cases hok), fun emptied herror => ?_⟩
    obtain rfl := Except.error.inj herror
    refine @fullFrom_openRound reply Unit pure emptied ?_ (fun h => by cases h)
    rw [bind_pure, hopen]
  | ok u =>
    dsimp only
    have hexact : Progress.Exact ⟨candidates now row rows, (candidates now row rows).length,
        ((candidates now row rows).map Row.objectSize).sum, 0⟩ :=
      ⟨nodup_filter (nodup_filter hnodup _) _, rfl, rfl⟩
    have hless : (candidates now row rows).length ≤ rows.length :=
      (List.length_filter_le ..).trans (List.length_filter_le ..)
    obtain ⟨ended, hloop, hended, hfull⟩ := @evictLoop_ends reply config row.objectSize fuel
      (pressureTarget row.objectSize pressure) _ hexact (Nat.lt_of_le_of_lt hless hfuel) 4
    rw [hloop]
    refine ⟨_, rfl, fun rows' hok => ?_, fun emptied herror => ?_⟩
    · rw [Except.bind_eq_ok] at hok
      obtain ⟨⟨p, n⟩, hp, hok⟩ := hok
      simp only [Except.bind_unit_eq_ok] at hok
      obtain rfl := Except.ok.inj hok.2.2
      have hend := (hended p n hp).1
      obtain ⟨hcount, hbytes⟩ := hend.limits hsize hentries
      obtain ⟨victims, hevicted⟩ := hend.evicted
      refine ⟨⟨victims, p.rows, hevicted, rfl⟩, ?_, ?_⟩
      · rw [List.length_append, List.length_singleton]
        exact hcount
      · rw [List.map_append, List.sum_append, List.map_singleton, List.sum_singleton]
        exact hbytes
    · -- the statement that failed comes behind the first four, in the loop or after it
      refine @fullFrom_openRound reply Unit (fun _ => .error (.full emptied)) emptied
        (by rw [hopen]; rfl) fun _ => ?_
      rcases Except.bind_eq_error.mp herror with herror | ⟨⟨p, n⟩, hp, herror⟩
      · exact hfull emptied herror
      · refine (hended p n hp).2 (fullFrom_of_statement herror fun herror => ?_)
        exact fullFrom_of_statement herror fun herror => by cases herror

/-- The round of this number found SQLite full at its last statement and was rolled back. -/
def FoundFull (w : Weather) (config : DiskConfig) (fuel : Nat) (row : Row) (rows : List Row)
    (round : Nat) (pressure : Option Nat) : Prop :=
  insertRound (w.reply round) config fuel (w.now round) row pressure rows =
    some (.error (.full false)) ∧ FullFrom (w.reply round) 0

/-- The rounds end. One that commits comes after rounds that SQLite was full in; otherwise the
    rows are as they were. -/
theorem putRounds_spec (w : Weather) {store : Store} (hnodup : (store.rows.map Row.keyHash).Nodup)
    (hfuel : store.rows.length < fuel) (hsize : row.objectSize ≤ config.maxBytes)
    (hentries : 1 ≤ config.maxEntries) (pressures : List (Option Nat)) (round : Nat) :
    ∃ outcome store', putRounds w config fuel row store round pressures = some (outcome, store') ∧
      ((outcome = refreshed w .stored ∧ ∃ k pressure, pressures[k]? = some pressure ∧
          (∀ j < k, ∃ earlier, pressures[j]? = some earlier ∧
            FoundFull w config fuel row store.rows (round + j) earlier) ∧
          Inserted config (w.now (round + k)) row pressure store.rows store'.rows) ∨
        (outcome ≠ .stored ∧ store'.rows = store.rows)) := by
  induction pressures generalizing round with
  | nil => exact ⟨_, _, rfl, .inr ⟨fun h => (by cases h), rfl⟩⟩
  | cons pressure pressures ih =>
    obtain ⟨result, hround, hinserted, hfull⟩ := @insertRound_spec (w.reply round) config fuel row
      store.rows hnodup hfuel hsize hentries (w.now round) pressure
    rw [putRounds, hround]
    rcases result with (emptied | -) | rows'
    · cases emptied with
      | true =>
        refine ⟨_, _, rfl, .inr ⟨fun h => ?_, rfl⟩⟩
        unfold refreshed at h
        split at h <;> cases h
      | false =>
        obtain ⟨outcome, store', hrest, hcases⟩ := ih (round + 1)
        refine ⟨outcome, store', hrest, hcases.imp_left ?_⟩
        rintro ⟨houtcome, k, pressure', hpressure, hbefore, hcommitted⟩
        refine ⟨houtcome, k + 1, pressure', hpressure, fun j hj => ?_, ?_⟩
        · cases j with
          | zero => exact ⟨pressure, rfl, hround, hfull false rfl⟩
          | succ j =>
            rw [show round + (j + 1) = round + 1 + j by omega]
            exact hbefore j (by omega)
        · rwa [show round + (k + 1) = round + 1 + k by omega]
    · exact ⟨_, _, rfl, .inr ⟨fun h => (by cases h), rfl⟩⟩
    · exact ⟨_, _, rfl, .inl ⟨rfl, 0, pressure, rfl, fun j hj => absurd hj (Nat.not_lt_zero j),
        hinserted rows' rfl⟩⟩

end rounds

/-! ## The quota -/

/-- What passes the estimate of pages is not larger than the quota. -/
theorem size_le_maxBytes {config : DiskConfig} {size : Nat} (hbytes : 65536 ≤ config.maxBytes)
    (h : ¬ diskPageBudget config - 1 < estimatedPages size) : size ≤ config.maxBytes := by
  have hpages : size < (diskPageBudget config - 1 + 1) * 4092 := by
    have hestimate : size / 4092 < diskPageBudget config - 1 + 1 :=
      Nat.lt_succ_of_le (Nat.le_of_not_lt h)
    exact (Nat.div_lt_iff_lt_mul (by decide)).mp hestimate
  have hbudget : diskPageBudget config * 4092 ≤ config.maxBytes ∧ 1 ≤ diskPageBudget config := by
    unfold diskPageBudget minDiskPages sqlitePageBytes
    dsimp only
    omega
  omega

/-- The object was inserted by a transaction that committed, in a round that SQLite made
    necessary: in every earlier one it was full at the statement the round ended with. -/
def Committed (w : Weather) (config : DiskConfig) (fuel : Nat) (hash : Bytes) (entry : CacheEntry)
    (size : Nat) (store store' : Store) : Prop :=
  ∃ round pressure sequence, fullRecoveryPressure[round]? = some pressure ∧
    (∀ earlier < round, ∃ pressure, fullRecoveryPressure[earlier]? = some pressure ∧
      FoundFull w config fuel (newRow hash entry size sequence) store.rows earlier pressure) ∧
    Inserted config (w.now round) (newRow hash entry size sequence) pressure store.rows store'.rows

/-- **The quota of the disk tier**: whatever SQLite reports, `put` returns, its loops taking at
    most one turn for each row. When it has stored the object, or when only the statistics failed
    behind that, the object is there, the rows and their sizes are within the limits, and the
    rows that are gone were expired, the object's own, or victims that were required, in order of
    eviction. Otherwise all rows are as they were. -/
theorem put_quota (w : Weather) (config : DiskConfig) (hbytes : 65536 ≤ config.maxBytes)
    (hentries : 1 ≤ config.maxEntries) (hash : Bytes) (entry : CacheEntry) (size : Nat)
    (store : Store) (hnodup : (store.rows.map Row.keyHash).Nodup) (fuel : Nat)
    (hfuel : store.rows.length < fuel) :
    ∃ outcome store', put w config fuel hash entry size store = some (outcome, store') ∧
      (store'.rows.map Row.keyHash).Nodup ∧
      (((outcome = .stored ∨ outcome = .error .statistics) ∧
          Committed w config fuel hash entry size store store') ∨
        (outcome ≠ .stored ∧ store'.rows = store.rows)) := by
  unfold put
  split
  · exact ⟨_, _, rfl, hnodup, .inr ⟨fun h => (by cases h), rfl⟩⟩
  · next hfits =>
    have hsize := size_le_maxBytes hbytes (not_or.mp hfits).2
    obtain ⟨outcome, store', hput, hcases⟩ := @putRounds_spec config fuel
      (newRow hash entry size (nextSequence store.sequence)) w
      { store with sequence := nextSequence store.sequence } hnodup hfuel hsize hentries
      fullRecoveryPressure 0
    refine ⟨outcome, store', hput, ?_, ?_⟩
    · rcases hcases with ⟨-, k, pressure, -, -, hinserted⟩ | ⟨-, hrows⟩
      · exact hinserted.nodup hnodup
      · rw [hrows]
        exact hnodup
    · refine hcases.imp_left ?_
      rintro ⟨rfl, k, pressure, hpressure, hbefore, hinserted⟩
      simp only [Nat.zero_add] at hbefore hinserted
      refine ⟨?_, k, pressure, _, hpressure, hbefore, hinserted⟩
      unfold refreshed
      split
      · exact .inl rfl
      · exact .inr rfl

namespace Sample

def config (maxEntries : Nat) : DiskConfig := ⟨65536, maxEntries, .fifo⟩

def entry : CacheEntry := ⟨[], [], 200, 0, 1000, 0, none⟩

/-- A row that is fresh until 1000. -/
def old : Row := ⟨[1], entry, 1000, 300, 1, 1⟩

def store : Store := ⟨[old], 1, 2 ^ 64 - 1⟩

/-- Everything succeeds but the statistics. -/
def statisticsFail : Weather := ⟨fun _ _ => .done, fun _ => 0, false⟩

/-- SQLite is full at the first insert. -/
def fullOnce : Weather :=
  ⟨fun round n => if round = 0 ∧ n = 4 then .full else .done, fun _ => 0, true⟩

end Sample

/-- The first round finds SQLite full and is rolled back; the second one evicts and stores. -/
theorem put_quota_full : ∃ store',
    put Sample.fullOnce (Sample.config 2) 2 [2] Sample.entry 300 Sample.store =
        some (.stored, store') ∧ Sample.old ∉ store'.rows ∧
      Committed Sample.fullOnce (Sample.config 2) 2 [2] Sample.entry 300 Sample.store store' := by
  obtain ⟨outcome, store', hput, -, hcases⟩ := put_quota Sample.fullOnce (Sample.config 2)
    (by decide) (by decide) [2] Sample.entry 300 Sample.store (by decide) 2 (by decide)
  obtain ⟨rfl, rfl⟩ := Prod.mk.inj (Option.some.inj hput)
  refine ⟨_, hput, by decide, ?_⟩
  rcases hcases with ⟨-, hcommitted⟩ | ⟨hne, -⟩
  · exact hcommitted
  · exact absurd rfl hne

/-- When the statistics fail behind the commit, `put` fails, and the row that was evicted is
    gone. -/
theorem put_fails_committed : ∃ store',
    put Sample.statisticsFail (Sample.config 1) 2 [2] Sample.entry 300 Sample.store =
        some (.error .statistics, store') ∧
      Sample.store.rows.length ≤ (Sample.config 1).maxEntries ∧
      (Sample.store.rows.map Row.objectSize).sum ≤ (Sample.config 1).maxBytes ∧
      Sample.old ∈ Sample.store.rows ∧ Sample.old.expired 0 = false ∧
      Sample.old ∉ store'.rows :=
  ⟨_, rfl, by decide, by decide, by decide, by decide, by decide⟩

end Quota

end Cache
