import Hangang.ConfigStore.Outcome
import Mathlib.Order.Bounds.Basic

/-! # Sequenced Commits Happen Once

    The invariant `Consistent` of the document, the receipts, the marks and the counter
    is kept by each outcome of a call and therefore along every run.

    A sequenced call looks at the high-water mark before it writes, and raises it when
    it does. The mark never falls, so a sequence that wrote once is at or below it from
    then on. -/

open Bytes Except

namespace ConfigStore

variable {Config : Type} [DecidableEq Config] {f : Format Config} {fresh epoch : Bytes}
  {db db' : Db} {expected : Nat} {next : Config}

/-! ## The invariant -/

/-- The sequences of an authority's receipts. -/
def Db.sequences (db : Db) (authorityId : Bytes) : Set Nat :=
  { seq | ∃ receipt ∈ db.sequencedReceipts.map RetainedReceipt.receipt,
    receipt.stamp.authorityId = authorityId ∧ receipt.stamp.acceptanceSeq = seq }

structure Consistent (db : Db) : Prop where
  counted : db.storedRecords = db.commitReceipts.length + db.sequencedReceipts.length
  bounded : db.storedRecords ≤ commitReceiptCapacity
  /-- The mark is the largest sequence. -/
  marked : ∀ authorityId authority, db.authorities.lookup authorityId = some authority →
    IsGreatest (db.sequences authorityId) authority.highWater
  /-- Without a mark there are no receipts. -/
  unmarked : ∀ authorityId, db.authorities.lookup authorityId = none →
    db.sequences authorityId = ∅
  /-- A sequenced write needs an epoch, which the document then keeps. -/
  started : db.sequencedReceipts ≠ [] → ∃ row, db.row = some row ∧ row.epoch ≠ []

theorem initial_consistent (document : Option Row) : Consistent (initial document) where
  counted := rfl
  bounded := Nat.zero_le _
  marked := by
    intro authorityId authority h
    exact absurd (AList.lookup_empty authorityId ▸ h) (by simp)
  unmarked := by
    intro authorityId _
    simp [Db.sequences, initial]
  started := fun h => absurd rfl h

theorem sequences_append (db : Db) {db' : Db} (authorityId : Bytes)
    (receipt : SequencedCommitReceipt)
    (h : db'.sequencedReceipts = db.sequencedReceipts ++ [⟨receipt, true⟩]) :
    db'.sequences authorityId = if receipt.stamp.authorityId = authorityId then
      insert receipt.stamp.acceptanceSeq (db.sequences authorityId)
    else db.sequences authorityId := by
  ext seq
  unfold Db.sequences
  rw [h]
  split
  next hauthority =>
    simp only [List.map_append, List.map_cons, List.map_nil, List.mem_append, List.mem_singleton,
      Set.mem_ofPred_eq, Set.mem_insert_iff]
    constructor
    · rintro ⟨old, hold | rfl, hold', rfl⟩
      · exact .inr ⟨old, hold, hold', rfl⟩
      · exact .inl rfl
    · rintro (rfl | ⟨old, hold, hold'⟩)
      · exact ⟨receipt, .inr rfl, hauthority, rfl⟩
      · exact ⟨old, .inl hold, hold'⟩
  next hauthority =>
    simp only [List.map_append, List.map_cons, List.map_nil, List.mem_append, List.mem_singleton,
      Set.mem_ofPred_eq]
    constructor
    · rintro ⟨old, hold | rfl, hold'⟩
      · exact ⟨old, hold, hold'⟩
      · exact absurd hold'.1 hauthority
    · rintro ⟨old, hold, hold'⟩
      exact ⟨old, .inl hold, hold'⟩

/-- No sequence of an authority is above its mark. -/
theorem Consistent.le_highWater (h : Consistent db) {authorityId : Bytes} {seq : Nat}
    (hseq : seq ∈ db.sequences authorityId) : seq ≤ db.highWater authorityId := by
  unfold Db.highWater
  cases hlookup : db.authorities.lookup authorityId with
  | none => exact absurd hseq (by rw [h.unmarked authorityId hlookup]; exact Set.notMem_empty seq)
  | some authority => exact (h.marked authorityId authority hlookup).2 hseq

/-- The invariant speaks about the tables and about the epoch of the document. -/
theorem Consistent.of_tables (h : Consistent db)
    (hcommits : db'.commitReceipts = db.commitReceipts)
    (hreceipts : db'.sequencedReceipts.map RetainedReceipt.receipt =
      db.sequencedReceipts.map RetainedReceipt.receipt)
    (hauthorities : db'.authorities = db.authorities)
    (hrecords : db'.storedRecords = db.storedRecords)
    (hrow : (∃ row, db.row = some row ∧ row.epoch ≠ []) →
      ∃ row, db'.row = some row ∧ row.epoch ≠ []) : Consistent db' := by
  have hsequences : db'.sequences = db.sequences := by
    unfold Db.sequences
    rw [hreceipts]
  have hlength : db'.sequencedReceipts.length = db.sequencedReceipts.length := by
    rw [← List.length_map RetainedReceipt.receipt, hreceipts, List.length_map]
  constructor
  · rw [hrecords, hcommits, hlength]
    exact h.counted
  · rw [hrecords]
    exact h.bounded
  · rw [hsequences, hauthorities]
    exact h.marked
  · rw [hsequences, hauthorities]
    exact h.unmarked
  · intro hne
    apply hrow
    apply h.started
    rw [← List.length_pos_iff, ← hlength]
    exact List.length_pos_iff.mpr hne

/-- A written document has the epoch of the one before, if that had one. -/
theorem Written.epoch_ne {row row' : Row} (h : Written row row') (hepoch : row.epoch ≠ []) :
    row'.epoch ≠ [] := by
  rcases h.2 with heq | hempty
  · rw [heq]
    exact hepoch
  · exact absurd hempty hepoch

/-- **Step**: every outcome keeps the invariant. -/
theorem Outcome.consistent (h : Consistent db) (houtcome : Outcome db db') : Consistent db' := by
  cases houtcome with
  | read hupgraded =>
    refine h.of_tables ?_ ?_ ?_ ?_ ?_
    all_goals try rw [hupgraded.tables]
    rcases hupgraded with rfl | ⟨row, fresh, hrow, hepoch, rfl⟩
    · exact id
    · rintro ⟨row', hrow', hepoch'⟩
      rw [hrow] at hrow'
      exact absurd (Option.some.inj hrow' ▸ hepoch) hepoch'
  | seeded row hrow =>
    refine h.of_tables rfl rfl rfl rfl ?_
    rintro ⟨row', hrow', -⟩
    rw [hrow] at hrow'
    cases hrow'
  | @swapped row row' hrow hwritten =>
    refine h.of_tables rfl rfl rfl rfl ?_
    rintro ⟨old, hold, hepoch⟩
    obtain rfl := Option.some.inj (hrow.symm.trans hold)
    exact ⟨row', rfl, hwritten.epoch_ne hepoch⟩
  | @stamped row row' receipt hrow hwritten hroom =>
    refine ⟨?_, hroom, h.marked, h.unmarked, ?_⟩
    · have hcounted := h.counted
      simp only [List.length_append, List.length_singleton]
      omega
    · intro hne
      obtain ⟨old, hold, hepoch⟩ := h.started hne
      obtain rfl := Option.some.inj (hrow.symm.trans hold)
      exact ⟨row', rfl, hwritten.epoch_ne hepoch⟩
  | @sequenced row row' receipt generation hrow hwritten hepoch hfresh hroom =>
    refine ⟨?_, hroom, ?_, ?_, fun _ => ⟨row', rfl, hepoch⟩⟩
    · have hcounted := h.counted
      simp only [List.length_append, List.length_singleton]
      omega
    · intro authorityId authority hlookup
      rw [sequences_append db authorityId receipt (by rfl)]
      split
      next hauthority =>
        -- the new receipt is above all the others
        subst hauthority
        rw [AList.lookup_insert] at hlookup
        obtain rfl := Option.some.inj hlookup
        refine ⟨Set.mem_insert _ _, ?_⟩
        rintro seq (rfl | hseq)
        · exact le_rfl
        · exact ((h.le_highWater hseq).trans_lt hfresh).le
      next hauthority =>
        rw [AList.lookup_insert_ne (Ne.symm hauthority)] at hlookup
        exact h.marked authorityId authority hlookup
    · intro authorityId hlookup
      rw [sequences_append db authorityId receipt (by rfl)]
      split
      next hauthority =>
        subst hauthority
        rw [AList.lookup_insert] at hlookup
        cases hlookup
      next hauthority =>
        rw [AList.lookup_insert_ne (Ne.symm hauthority)] at hlookup
        exact h.unmarked authorityId hlookup
  | released releases records pins hpins => exact h.of_tables rfl hpins rfl rfl id

/-- Receipts are never removed. -/
theorem Outcome.sequences_subset (houtcome : Outcome db db') (authorityId : Bytes) :
    db.sequences authorityId ⊆ db'.sequences authorityId := by
  cases houtcome with
  | read hupgraded =>
    rw [hupgraded.tables]
    exact subset_rfl
  | seeded => exact subset_rfl
  | swapped => exact subset_rfl
  | stamped => exact subset_rfl
  | sequenced =>
    rintro seq ⟨old, hold, hmatch⟩
    refine ⟨old, ?_, hmatch⟩
    rw [List.map_append]
    exact List.mem_append_left _ hold
  | released releases records pins hpins =>
    unfold Db.sequences
    rw [hpins]

/-- **Run**: in every reachable state the books are consistent. -/
theorem run_consistent {document : Option Row} {events : List (Event Config)}
    (hrun : (sqlite f).run (initial document) events = some db) : Consistent db :=
  Machine.run_invariant (fun _ _ _ h hstep => (step_outcome hstep).consistent h)
    (initial_consistent document) hrun

theorem run_sequences_subset {events : List (Event Config)}
    (hrun : (sqlite f).run db events = some db') (authorityId : Bytes) :
    db.sequences authorityId ⊆ db'.sequences authorityId :=
  Machine.run_relation (fun _ => True)
    (fun db db' => db.sequences authorityId ⊆ db'.sequences authorityId)
    (fun _ => subset_rfl) (fun _ _ _ => Set.Subset.trans) (fun _ _ _ _ _ => trivial)
    (fun _ _ _ _ hstep => (step_outcome hstep).sequences_subset authorityId) trivial hrun

/-! ## Exactly once -/

/-- How one step changes the document: not at all, by the seed, by giving an old
    document its epoch, or by one revision in its epoch. -/
def RowStep (old new : Option Row) : Prop :=
  new = old ∨ (old = none ∧ new.isSome) ∨
    (∃ row fresh, old = some row ∧ row.epoch = [] ∧ new = some { row with epoch := fresh }) ∨
    ∃ row row', old = some row ∧ new = some row' ∧ Written row row'

theorem Outcome.rowStep (houtcome : Outcome db db') : RowStep db.row db'.row := by
  cases houtcome with
  | read hupgraded =>
    rcases hupgraded with rfl | ⟨row, fresh, hrow, hepoch, rfl⟩
    · exact .inl rfl
    · exact .inr (.inr (.inl ⟨row, fresh, hrow, hepoch, rfl⟩))
  | seeded row hrow => exact .inr (.inl ⟨hrow, rfl⟩)
  | swapped hrow hwritten => exact .inr (.inr (.inr ⟨_, _, hrow, rfl, hwritten⟩))
  | stamped receipt hrow hwritten => exact .inr (.inr (.inr ⟨_, _, hrow, rfl, hwritten⟩))
  | sequenced receipt generation hrow hwritten =>
    exact .inr (.inr (.inr ⟨_, _, hrow, rfl, hwritten⟩))
  | released => exact .inl rfl

/-- The step of a sequenced call. -/
def Event.sequenced (fresh epoch : Bytes) (expected : Nat) (next : Config)
    (stamp : SequencedOperationStamp) : Event Config :=
  .call (.compareAndSwapOperationV2 epoch expected next stamp) fresh

/-- A sequenced step leaves the database alone, or its sequence was above the mark and
    has a receipt now. -/
theorem sequenced_step {stamp : SequencedOperationStamp}
    (h : (sqlite f).step db (.sequenced fresh epoch expected next stamp) = some db') :
    db' = db ∨ db.highWater stamp.authorityId < stamp.acceptanceSeq ∧
      stamp.acceptanceSeq ∈ db'.sequences stamp.authorityId := by
  obtain rfl : settled db _ = db' := Option.some.inj h
  cases hperform : perform f fresh db (.compareAndSwapOperationV2 epoch expected next stamp) with
  | error e => exact .inl rfl
  | ok tx =>
    show tx = db ∨ _ ∧ _ ∈ tx.sequences _
    obtain ⟨⟨_, result⟩, hcall, rfl⟩ := map_eq_ok.mp hperform
    cases (compareAndSwapOperationV2_eq_ok hcall).2.1 with
    | conflict => exact .inl rfl
    | replayed => exact .inl rfl
    | written generation hrow hwritten hcandidate hfresh =>
      refine .inr ⟨hfresh, ⟨epoch, expected + 1, stamp⟩, ?_, rfl, rfl⟩
      rw [List.map_append]
      exact List.mem_append_right _ List.mem_cons_self

/-- At or below the mark nothing happens. -/
theorem sequenced_step_of_le {stamp : SequencedOperationStamp}
    (hle : stamp.acceptanceSeq ≤ db.highWater stamp.authorityId) :
    (sqlite f).step db (.sequenced fresh epoch expected next stamp) = some db := by
  obtain ⟨tx, htx⟩ : ∃ tx, (sqlite f).step db (.sequenced fresh epoch expected next stamp) = some tx :=
    ⟨_, rfl⟩
  rcases sequenced_step htx with rfl | ⟨hlt, -⟩
  · exact htx
  · exact absurd hle (Nat.not_le_of_lt hlt)

/-- `Applied` speaks about the document that is left. -/
theorem applied_candidate (h : Consistent db) {stamp : SequencedOperationStamp}
    {stored : Stored Config}
    (hcall : compareAndSwapOperationV2 f fresh db epoch expected next stamp =
      .ok (db', .applied stored)) :
    stored = ⟨epoch, f.withRevision next (expected + 1)⟩ ∧
      ∃ row, db'.row = some row ∧ Candidate f epoch expected next stamp row := by
  cases (compareAndSwapOperationV2_eq_ok hcall).2.1 with
  | written generation hrow hwritten hcandidate => exact ⟨rfl, _, rfl, hcandidate⟩
  | @replayed tx row hupgraded hrow hretained hcandidate =>
    refine ⟨rfl, row, ?_, hcandidate⟩
    -- there is a receipt, so the document has its epoch and the load changed nothing
    have hne : db.sequencedReceipts ≠ [] := by
      intro hnil
      rw [findReceipt, hnil] at hretained
      cases hretained
    obtain ⟨old, hold, hepoch⟩ := h.started hne
    rcases hupgraded with rfl | ⟨row', _, hrow', hepoch', -⟩
    · exact hrow
    · exact absurd (Option.some.inj (hold.symm.trans hrow') ▸ hepoch') hepoch

/-- **Sequenced commits happen exactly once.** In every state that calls of any kind can
    reach:

    * the counter is the number of receipts of both kinds and within the capacity;
    * the mark of an authority is the largest sequence among its receipts;
    * any step changes the document by at most one revision, in its epoch;
    * a plain or stamped call that returns `Applied` leaves its candidate;
    * a sequenced call at or below the mark changes nothing;
    * one that returns `Applied` leaves its candidate with its identity;
    * once one has changed the document, no later call with its authority and sequence
      changes anything. -/
theorem sequenced_exactly_once (f : Format Config) (document : Option Row)
    {before : List (Event Config)} {db : Db}
    (hrun : (sqlite f).run (initial document) before = some db) :
    (db.storedRecords = db.commitReceipts.length + db.sequencedReceipts.length ∧
      db.storedRecords ≤ 100000) ∧
    (∀ authorityId, match db.authorities.lookup authorityId with
      | some authority => IsGreatest (db.sequences authorityId) authority.highWater
      | none => db.sequences authorityId = ∅) ∧
    (∀ event db', (sqlite f).step db event = some db' → RowStep db.row db'.row) ∧
    (∀ fresh epoch expected next db' result,
      compareAndSwap f fresh db epoch expected next = .ok (db', result) ∨
        (∃ stamp, compareAndSwapOperation f fresh db epoch expected next stamp =
          .ok (db', result)) → AppliedCurrent f epoch expected next db' result) ∧
    ∀ (fresh epoch : Bytes) (expected : Nat) (next : Config) (stamp : SequencedOperationStamp),
      (stamp.acceptanceSeq ≤ db.highWater stamp.authorityId →
        (sqlite f).step db (.sequenced fresh epoch expected next stamp) = some db) ∧
      (∀ db' stored, compareAndSwapOperationV2 f fresh db epoch expected next stamp =
          .ok (db', .applied stored) →
        stored = ⟨epoch, f.withRevision next (expected + 1)⟩ ∧
          ∃ row, db'.row = some row ∧ Candidate f epoch expected next stamp row) ∧
      ∀ db', (sqlite f).step db (.sequenced fresh epoch expected next stamp) = some db' →
        db'.row ≠ db.row →
        ∀ (between : List (Event Config)) (later : Db),
          (sqlite f).run db' between = some later →
          ∀ (fresh' epoch' : Bytes) (expected' : Nat) (next' : Config)
            (stamp' : SequencedOperationStamp), stamp'.authorityId = stamp.authorityId →
            stamp'.acceptanceSeq = stamp.acceptanceSeq →
            (sqlite f).step later (.sequenced fresh' epoch' expected' next' stamp') = some later := by
  have hconsistent := run_consistent hrun
  refine ⟨⟨hconsistent.counted, hconsistent.bounded⟩, ?_, ?_, ?_, ?_⟩
  · intro authorityId
    cases hlookup : db.authorities.lookup authorityId with
    | none => exact hconsistent.unmarked authorityId hlookup
    | some authority => exact hconsistent.marked authorityId authority hlookup
  · intro event db' hstep
    exact (step_outcome hstep).rowStep
  · rintro fresh epoch expected next db' result (hcall | ⟨stamp, hcall⟩)
    · exact (compareAndSwap_outcome hcall).2.2
    · exact (compareAndSwapOperation_outcome hcall).2.2
  · intro fresh epoch expected next stamp
    refine ⟨sequenced_step_of_le, fun db' stored => applied_candidate hconsistent, ?_⟩
    intro db' hstep hchanged between later hlater fresh' epoch' expected' next' stamp' hauthority hseq
    apply sequenced_step_of_le
    rw [hauthority, hseq]
    -- the receipt is still there, and the mark is not below it
    have hwrote : stamp.acceptanceSeq ∈ db'.sequences stamp.authorityId := by
      rcases sequenced_step hstep with rfl | ⟨-, hmem⟩
      · exact absurd rfl hchanged
      · exact hmem
    have hconsistent' : Consistent later :=
      Machine.run_invariant (fun _ _ _ h hstep => (step_outcome hstep).consistent h)
        ((step_outcome hstep).consistent hconsistent) hlater
    exact hconsistent'.le_highWater (run_sequences_subset hlater _ hwrote)

/-- The first sequence of one authority, for a note. -/
def noteStamp (note : Nat × Bytes) : SequencedOperationStamp where
  authorityId := List.replicate 32 97
  acceptanceSeq := 1
  operationId := ascii "00000000000000010000000000000000"
  candidateSha256 := noteFormat.sha256Hex (noteFormat.serialize note)

def noteSeed : List (Event (Nat × Bytes)) := [.call (.seed (1, []) noteEpoch) []]

/-- The first candidate is written; a second one with the same sequence is not. -/
theorem sequenced_exactly_once_two_notes :
    ∃ db db', (sqlite noteFormat).run (initial none) noteSeed = some db ∧
      (sqlite noteFormat).step db (.sequenced [] noteEpoch 1 (0, [7]) (noteStamp (2, [7]))) =
        some db' ∧ db'.row ≠ db.row ∧
      (sqlite noteFormat).step db' (.sequenced [] noteEpoch 2 (0, [9]) (noteStamp (3, [9]))) =
        some db' := by
  refine ⟨_, _, rfl, rfl, by decide +kernel, ?_⟩
  have h := (sequenced_exactly_once noteFormat none (show _ = some _ from rfl :
    (sqlite noteFormat).run (initial none) noteSeed = some _)).2.2.2.2
  exact (h [] noteEpoch 1 (0, [7]) (noteStamp (2, [7]))).2.2 _ rfl (by decide +kernel) [] _ rfl
    [] noteEpoch 2 (0, [9]) (noteStamp (3, [9])) rfl rfl

/-! ## Lost updates -/

/-- `row'` is `row`, or a later revision in its epoch. -/
def Follows (row row' : Row) : Prop :=
  row'.epoch = row.epoch ∧ (row' = row ∨ row.revision < row'.revision)

/-- **Step**: a document with an epoch is replaced by later revisions only. -/
theorem Follows.rowStep {row row' : Row} {new : Option Row} (h : Follows row row')
    (hepoch : row.epoch ≠ []) (hstep : RowStep (some row') new) :
    ∃ row'', new = some row'' ∧ Follows row row'' := by
  have hepoch' : row'.epoch ≠ [] := h.1 ▸ hepoch
  rcases hstep with rfl | ⟨hnone, -⟩ | ⟨old, _, hold, hempty, -⟩ | ⟨old, next, hold, rfl, hwritten⟩
  · exact ⟨row', rfl, h⟩
  · cases hnone
  · exact absurd (Option.some.inj hold ▸ hempty) hepoch'
  · obtain rfl := Option.some.inj hold
    refine ⟨next, rfl, (hwritten.2.resolve_right hepoch').trans h.1, .inr ?_⟩
    rw [hwritten.1]
    rcases h.2 with rfl | hlt
    · exact Nat.lt_succ_self _
    · exact Nat.lt_succ_of_lt hlt

/-- What a compare-and-swap replaces is at the expected revision. -/
theorem compareAndSwap_guarded {result : CasResult Config} {row : Row} (hrow : db.row = some row)
    (hepoch : row.epoch ≠ [])
    (h : compareAndSwap f fresh db epoch expected next = .ok (db', result))
    (hchanged : db'.row ≠ db.row) : row.revision = expected := by
  simp only [compareAndSwap, bind_eq_ok] at h
  obtain ⟨revision, -, encoded, -, _, -, _, -, h⟩ := h
  split at h
  next tx hupdate =>
    obtain ⟨old, -, hold, hrevision, -⟩ := updateRow_eq_some (.inl rfl) hupdate
    obtain rfl := Option.some.inj (hrow.symm.trans hold)
    exact hrevision
  next =>
    simp only [bind_eq_ok] at h
    obtain ⟨⟨current, tx⟩, hload, h⟩ := h
    cases current with
    | none => cases h
    | some current =>
      obtain ⟨rfl, -⟩ := ok_pair_inj h
      -- the document has its epoch, so the load has changed nothing
      rcases (sqliteLoad_eq_ok hload).1 with rfl | ⟨old, _, hold, hempty, -⟩
      · exact absurd rfl hchanged
      · exact absurd (Option.some.inj (hrow.symm.trans hold) ▸ hempty) hepoch

/-- **No update is lost.** A document with an epoch is read, and calls of any kind follow. Its
    epoch stays, its revision does not fall, and a document with the revision that was read is
    the one that was read. So a compare-and-swap that expects what was read replaces nothing
    else. -/
theorem no_lost_update (f : Format Config) {row : Row} (hread : db.row = some row)
    (hepoch : row.epoch ≠ []) {events : List (Event Config)}
    (hrun : (sqlite f).run db events = some db') :
    ∃ row', db'.row = some row' ∧ row'.epoch = row.epoch ∧ row.revision ≤ row'.revision ∧
      (row'.revision = row.revision → row' = row) ∧
      ∀ fresh next later result,
        compareAndSwap f fresh db' row.epoch row.revision next = .ok (later, result) →
        later.row ≠ db'.row → row' = row := by
  obtain ⟨row', hrow', hsame, hrevision⟩ : ∃ row', db'.row = some row' ∧ Follows row row' := by
    apply Machine.run_invariant (m := sqlite f) _ ⟨row, hread, rfl, .inl rfl⟩ hrun
    rintro s event s' ⟨row', hrow', hfollows⟩ hstep
    have hrowStep := (step_outcome hstep).rowStep
    rw [hrow'] at hrowStep
    exact hfollows.rowStep hepoch hrowStep
  have hread' : row'.revision = row.revision → row' = row := fun heq =>
    hrevision.resolve_right (Nat.not_lt_of_le (Nat.le_of_eq heq))
  refine ⟨row', hrow', hsame, ?_, hread', fun fresh next later result hcas hchanged => ?_⟩
  · rcases hrevision with rfl | hlt
    · exact Nat.le_refl _
    · exact Nat.le_of_lt hlt
  · exact hread' (compareAndSwap_guarded hrow' (hsame ▸ hepoch) hcas hchanged)

/-- A note is read, and somebody else writes: the revision that was read is gone. -/
theorem no_lost_update_stale :
    ∃ db db' row, (sqlite noteFormat).run (initial none) noteSeed = some db ∧ db.row = some row ∧
      (sqlite noteFormat).run db [.call (.compareAndSwap noteEpoch 1 (0, [7])) []] = some db' ∧
      ∃ row', db'.row = some row' ∧ row'.epoch = row.epoch ∧ row' ≠ row := by
  let db := settled (initial none) (seed noteFormat (initial none) (1, []) noteEpoch)
  obtain ⟨row', hrow', hepoch, -⟩ := no_lost_update noteFormat
    (rfl : db.row = some ⟨1, _, noteEpoch, .empty, 0⟩) (by decide +kernel)
    (rfl : (sqlite noteFormat).run db [.call (.compareAndSwap noteEpoch 1 (0, [7])) []] = some _)
  refine ⟨_, _, _, rfl, rfl, rfl, row', hrow', hepoch, ?_⟩
  rintro rfl
  exact absurd hrow' (by decide +kernel)

end ConfigStore
