import Hangang.ConfigStore.Sqlite

/-! # What a Call Does to the Database

    Plain, stamped and sequenced writers share one document, two receipt tables, a
    high-water mark for every authority and one counter. `Outcome` says once what a
    single call can do to all of them, and `Sequenced` how a sequenced call ends. -/

open Bytes Except

namespace ConfigStore

variable {Config : Type} {f : Format Config}

/-! ## What reading does -/

/-- A document without an epoch may have got one; nothing else changed. -/
def Upgraded (db db' : Db) : Prop :=
  db' = db ∨ ∃ row fresh, db.row = some row ∧ row.epoch = [] ∧
    db' = { db with row := some { row with epoch := fresh } }

variable {db tx : Db} {operation : OperationColumns} {stored : Stored Config}
  {result : CasResult Config} {seq : Nat}

theorem sqliteRow_eq_ok {row : Option Row} (h : sqliteRow db = .ok row) :
    db.row = row := by
  unfold sqliteRow at h
  split at h
  next hrow => exact hrow.trans (Except.ok.inj h)
  next stored hrow =>
    simp only [bind_eq_ok] at h
    obtain ⟨_, -, _, -, heq⟩ := h
    exact hrow.trans (Except.ok.inj heq)

theorem upgradeEpoch_upgraded (db : Db) (fresh : Bytes) : Upgraded db (upgradeEpoch db fresh) := by
  unfold upgradeEpoch
  cases hrow : db.row with
  | none =>
    left
    rw [Option.map_none, ← hrow]
  | some row =>
    by_cases hepoch : row.epoch = []
    · right
      exact ⟨row, fresh, hrow, hepoch, by simp [hepoch]⟩
    · left
      rw [Option.map_some, if_neg hepoch, ← hrow]

/-- A load leaves the database as it was, up to the epoch, and returns the document it
    leaves. -/
theorem sqliteLoad_eq_ok {fresh : Bytes} {stored : Option (Stored Config)}
    (h : sqliteLoad f fresh db = .ok (stored, tx)) :
    Upgraded db tx ∧ ∀ s, stored = some s → ∃ row, tx.row = some row ∧ decodeRow f row = .ok s := by
  simp only [sqliteLoad, bind_eq_ok] at h
  obtain ⟨found, hfound, h⟩ := h
  have hrow := sqliteRow_eq_ok hfound
  cases found with
  | none =>
    obtain ⟨rfl, rfl⟩ := ok_pair_inj h
    exact ⟨.inl rfl, fun s hs => absurd hs (by simp)⟩
  | some row =>
    by_cases hepoch : row.epoch = []
    · simp only [if_pos hepoch, bind_eq_ok] at h
      obtain ⟨again, hagain, h⟩ := h
      cases again with
      | none => cases h
      | some row' =>
        simp only [bind_eq_ok] at h
        obtain ⟨s', hs', h⟩ := h
        obtain ⟨rfl, rfl⟩ := ok_pair_inj h
        refine ⟨upgradeEpoch_upgraded db fresh, fun s hs => ?_⟩
        obtain rfl := Option.some.inj hs
        exact ⟨row', sqliteRow_eq_ok hagain, hs'⟩
    · simp only [if_neg hepoch, bind_eq_ok] at h
      obtain ⟨s', hs', h⟩ := h
      obtain ⟨rfl, rfl⟩ := ok_pair_inj h
      refine ⟨.inl rfl, fun s hs => ?_⟩
      obtain rfl := Option.some.inj hs
      exact ⟨row, hrow, hs'⟩

/-- The observation is of the row that is there. -/
structure Observes (f : Format Config) (row : Row) (current : Observed Config) : Prop where
  stored : decodeRow f row = .ok current.stored
  encoded : current.encoded = row.json
  metadata : ∀ metadata, current.metadata = some metadata →
    decodeOperationMetadata f row.operation.read = .ok (some metadata)

theorem sqliteLoadOperation_eq_ok {fresh : Bytes} {current : Option (Observed Config)}
    (h : sqliteLoadOperation f fresh db = .ok (current, tx)) :
    Upgraded db tx ∧ ∀ c, current = some c → ∃ row, tx.row = some row ∧ Observes f row c := by
  simp only [sqliteLoadOperation, bind_eq_ok] at h
  obtain ⟨⟨stored, tx'⟩, hload, h⟩ := h
  obtain ⟨hupgraded, hstored⟩ := sqliteLoad_eq_ok hload
  cases stored with
  | none =>
    obtain ⟨rfl, rfl⟩ := ok_pair_inj h
    exact ⟨hupgraded, fun c hc => absurd hc (by simp)⟩
  | some s =>
    obtain ⟨row, hrow, hdecode⟩ := hstored s rfl
    simp only [bind_eq_ok] at h
    obtain ⟨again, hagain, h⟩ := h
    obtain rfl := (sqliteRow_eq_ok hagain).symm.trans hrow
    simp only [bind_eq_ok] at h
    obtain ⟨_, -, h⟩ := h
    by_cases hempty : row.operation = .empty
    · rw [if_pos hempty] at h
      obtain ⟨rfl, rfl⟩ := ok_pair_inj h
      refine ⟨hupgraded, fun c hc => ?_⟩
      obtain rfl := Option.some.inj hc
      exact ⟨row, hrow, hdecode, rfl, fun _ hm => absurd hm (by simp)⟩
    · simp only [if_neg hempty, bind_eq_ok] at h
      obtain ⟨metadata, hmetadata, h⟩ := h
      cases metadata with
      | none => cases h
      | some metadata =>
        obtain ⟨rfl, rfl⟩ := ok_pair_inj h
        refine ⟨hupgraded, fun c hc => ?_⟩
        obtain rfl := Option.some.inj hc
        exact ⟨row, hrow, hdecode, rfl, fun m hm => hmetadata.trans (congrArg Except.ok hm)⟩

/-! ## What writing does -/

/-- `row'` is the next revision of `row`, in its epoch. -/
def Written (row row' : Row) : Prop :=
  row'.revision = row.revision + 1 ∧ (row'.epoch = row.epoch ∨ row.epoch = [])

/-- An update through a transaction that may have upgraded the epoch before. -/
theorem updateRow_eq_some {tx' : Db} {expected : Nat} {epoch json : Bytes} {allowed : Row → Bool}
    {revision : Nat} (hupgraded : Upgraded db tx)
    (h : updateRow tx expected epoch allowed revision json operation = some tx') :
    ∃ row generation, db.row = some row ∧ row.revision = expected ∧
      (epoch = row.epoch ∨ row.epoch = []) ∧
      tx' = { db with row := some ⟨revision, json, epoch, operation, generation⟩ } := by
  unfold updateRow at h
  split at h
  · cases h
  next row hrow =>
    split at h
    next hguard =>
      obtain ⟨hrevision, rfl, -, -⟩ := hguard
      obtain rfl := Option.some.inj h
      rcases hupgraded with rfl | ⟨old, fresh, hold, hepoch, rfl⟩
      · exact ⟨row, _, hrow, hrevision, .inl rfl, rfl⟩
      · obtain rfl := Option.some.inj hrow
        exact ⟨old, _, hold, hrevision, .inr hepoch, rfl⟩
    next => cases h

theorem written_of_update {row : Row} {expected revision generation : Nat} {epoch json : Bytes}
    (hrevision : row.revision = expected) (hnext : nextRevision expected = .ok revision)
    (hepoch : epoch = row.epoch ∨ row.epoch = []) :
    Written row ⟨revision, json, epoch, operation, generation⟩ := by
  refine ⟨?_, hepoch⟩
  show revision = row.revision + 1
  rw [hrevision]
  exact nextRevision_eq_ok hnext

/-- The mark of an authority; zero before its first receipt. -/
def Db.highWater (db : Db) (authorityId : Bytes) : Nat :=
  ((db.authorities.lookup authorityId).map Authority.highWater).getD 0

/-- What a call can do to the database. -/
inductive Outcome (db : Db) : Db → Prop where
  | read {db' : Db} (h : Upgraded db db') : Outcome db db'
  | seeded (row : Row) (h : db.row = none) : Outcome db { db with row := some row }
  | swapped {row row' : Row} (h : db.row = some row) (hwritten : Written row row') :
      Outcome db { db with row := some row' }
  | stamped {row row' : Row} (receipt : CommitReceipt) (h : db.row = some row)
      (hwritten : Written row row') (hroom : db.storedRecords < commitReceiptCapacity) :
      Outcome db { db with
        row := some row'
        commitReceipts := db.commitReceipts ++ [receipt]
        storedRecords := db.storedRecords + 1 }
  | sequenced {row row' : Row} (receipt : SequencedCommitReceipt) (generation : Nat)
      (h : db.row = some row) (hwritten : Written row row') (hepoch : row'.epoch ≠ [])
      (hfresh : db.highWater receipt.stamp.authorityId < receipt.stamp.acceptanceSeq)
      (hroom : db.storedRecords < commitReceiptCapacity) :
      Outcome db { db with
        row := some row'
        sequencedReceipts := db.sequencedReceipts ++ [⟨receipt, true⟩]
        authorities := db.authorities.insert receipt.stamp.authorityId
          ⟨receipt.stamp.acceptanceSeq, generation⟩
        storedRecords := db.storedRecords + 1 }
  | released (releases : List (Bytes × SequencedCommitReceipt)) (records : Nat)
      (pins : List RetainedReceipt)
      (h : pins.map RetainedReceipt.receipt = db.sequencedReceipts.map RetainedReceipt.receipt) :
      Outcome db { db with
        releases := releases
        sequencedReceipts := pins
        releaseRecords := records }

/-- The sequenced receipts, the marks and the evidence of releases are as before. -/
structure SameReceipts (db db' : Db) : Prop where
  receipts : db'.sequencedReceipts = db.sequencedReceipts
  authorities : db'.authorities = db.authorities
  releases : db'.releases = db.releases
  records : db'.releaseRecords = db.releaseRecords

theorem SameReceipts.refl (db : Db) : SameReceipts db db := ⟨rfl, rfl, rfl, rfl⟩

theorem Upgraded.sameReceipts {db' : Db} (h : Upgraded db db') : SameReceipts db db' := by
  rcases h with rfl | ⟨row, fresh, -, -, rfl⟩
  · exact .refl _
  · exact ⟨rfl, rfl, rfl, rfl⟩

/-- A new receipt above the mark, which is pinned. -/
structure Committed (f : Format Config) (db db' : Db) (receipt : SequencedCommitReceipt) :
    Prop where
  valid : sequencedReceipt f receipt = .ok receipt
  fresh : db.highWater receipt.stamp.authorityId < receipt.stamp.acceptanceSeq
  receipts : db'.sequencedReceipts = db.sequencedReceipts ++ [⟨receipt, true⟩]
  authorities : db'.authorities = db.authorities.insert receipt.stamp.authorityId
    ⟨receipt.stamp.acceptanceSeq, ((db.authorities.lookup receipt.stamp.authorityId).map
      Authority.retentionGeneration).getD 0⟩
  releases : db'.releases = db.releases
  records : db'.releaseRecords = db.releaseRecords

/-! ## The calls, one by one -/

variable {fresh epoch : Bytes} {db db' : Db} {expected : Nat} {next : Config}

theorem seed_outcome {initial : Config} (h : seed f db initial epoch = .ok db') :
    Outcome db db' ∧ SameReceipts db db' := by
  simp only [seed, bind_eq_ok] at h
  obtain ⟨encoded, -, _, -, h⟩ := h
  split at h
  · obtain rfl := Except.ok.inj h
    exact ⟨.read (.inl rfl), .refl _⟩
  next hrow =>
    obtain rfl := Except.ok.inj h
    exact ⟨.seeded _ hrow, rfl, rfl, rfl, rfl⟩

theorem loadCurrentOperationProof_outcome {proof : Option OperationProof}
    (h : loadCurrentOperationProof f fresh db = .ok (db', proof)) :
    Outcome db db' ∧ SameReceipts db db' := by
  simp only [loadCurrentOperationProof, bind_eq_ok] at h
  obtain ⟨⟨current, tx⟩, hload, h⟩ := h
  obtain ⟨rfl, -⟩ := ok_pair_inj h
  have hupgraded := (sqliteLoadOperation_eq_ok hload).1
  exact ⟨.read hupgraded, hupgraded.sameReceipts⟩

theorem countRecord_eq (h : (countRecord db).2 = true) :
    db.storedRecords < commitReceiptCapacity ∧
      (countRecord db).1 = { db with storedRecords := db.storedRecords + 1 } := by
  unfold countRecord at h ⊢
  split
  next hroom => exact ⟨hroom, rfl⟩
  next hfull =>
    rw [if_neg hfull] at h
    cases h

theorem releaseCommitReceiptV2_outcome {releaseId : Bytes} {receipt : SequencedCommitReceipt}
    (h : releaseCommitReceiptV2 f db releaseId receipt = .ok db') : Outcome db db' := by
  simp only [releaseCommitReceiptV2, bind_eq_ok] at h
  obtain ⟨_, -, _, -, _, -, existing, -, h⟩ := h
  cases existing with
  | some existing =>
    by_cases hsame : existing = receipt
    · obtain rfl := Except.ok.inj ((if_pos hsame).symm.trans h)
      exact .read (.inl rfl)
    · cases (if_neg hsame).symm.trans h
  | none =>
    simp only [bind_eq_ok] at h
    obtain ⟨_, -, _, -, _, -, _, -, _, -, h⟩ := h
    obtain rfl := Except.ok.inj h
    refine .released _ _ _ ?_
    rw [List.map_map]
    apply List.map_congr_left
    intro row _
    show RetainedReceipt.receipt (if _ then _ else _) = row.receipt
    split <;> rfl

/-- The candidate is the document, in its epoch or in one that has no epoch yet. -/
def Current (f : Format Config) (epoch : Bytes) (expected : Nat) (next : Config) (db : Db) : Prop :=
  ∃ row, db.row = some row ∧ (row.epoch = epoch ∨ row.epoch = []) ∧
    Holds f (expected + 1) (f.withRevision next (expected + 1)) row

/-- A result `Applied` names the candidate, which is there. -/
def AppliedCurrent (f : Format Config) (epoch : Bytes) (expected : Nat) (next : Config) (db : Db)
    (result : CasResult Config) : Prop :=
  ∀ stored, result = .applied stored →
    stored = ⟨epoch, f.withRevision next (expected + 1)⟩ ∧ Current f epoch expected next db

theorem Current.written {encoded : Bytes} {generation : Nat}
    (hencoded : f.encode (f.withRevision next (expected + 1)) = .ok encoded)
    (hrow : db.row = some ⟨expected + 1, encoded, epoch, operation, generation⟩) :
    Current f epoch expected next db :=
  ⟨_, hrow, .inl rfl, rfl, .inl (Format.encode_eq_ok.mp hencoded).2.2⟩

/-- A document that was read and is the candidate. -/
theorem Current.of_read {row : Row} (hrow : tx.row = some row)
    (hdecode : decodeRow f row = .ok stored)
    (hstored : stored = ⟨epoch, f.withRevision next (expected + 1)⟩) :
    Current f epoch expected next tx := by
  subst hstored
  obtain ⟨hepoch, hholds⟩ := decodeRow_eq_ok hdecode
  rw [f.revision_withRevision] at hholds
  exact ⟨row, hrow, .inl hepoch, hholds⟩

/-- The document was there before its epoch. -/
theorem Current.of_upgraded (hupgraded : Upgraded db tx) (h : Current f epoch expected next tx) :
    Current f epoch expected next db := by
  rcases hupgraded with rfl | ⟨old, fresh, hold, hempty, rfl⟩
  · exact h
  · obtain ⟨row, hrow, -, hholds⟩ := h
    obtain rfl := Option.some.inj hrow
    exact ⟨old, hold, .inr hempty, hholds.numbered, hholds.document⟩

variable [DecidableEq Config]

theorem resolveCas_eq_applied {current : Stored Config}
    (h : resolveCas current epoch next = .applied stored) :
    current = stored ∧ stored = ⟨epoch, next⟩ := by
  unfold resolveCas at h
  split at h
  next hsame =>
    obtain rfl := CasResult.applied.inj h
    exact ⟨rfl, by rw [← hsame.1, ← hsame.2]⟩
  next => cases h

theorem resolveOperationCasRead_eq_applied {current : Observed Config} {stamp : OperationStamp}
    {uncertain : Bool}
    (h : resolveOperationCasRead f current epoch next stamp uncertain = .ok (.applied stored)) :
    current.stored = stored ∧ stored = ⟨epoch, next⟩ := by
  simp only [resolveOperationCasRead] at h
  split at h
  · split at h
    next hsame =>
      obtain rfl := CasResult.applied.inj (Except.ok.inj h)
      exact ⟨rfl, by rw [← hsame.1, ← hsame.2.1]⟩
    next => split at h <;> cases h
  · split at h <;> cases h

theorem compareAndSwap_outcome
    (h : compareAndSwap f fresh db epoch expected next = .ok (db', result)) :
    Outcome db db' ∧ SameReceipts db db' ∧ AppliedCurrent f epoch expected next db' result := by
  simp only [compareAndSwap, bind_eq_ok] at h
  obtain ⟨revision, hnext, encoded, hencoded, _, -, _, -, h⟩ := h
  split at h
  next tx hupdate =>
    obtain ⟨rfl, rfl⟩ := ok_pair_inj h
    obtain ⟨row, generation, hrow, hrevision, hepoch, rfl⟩ := updateRow_eq_some (.inl rfl) hupdate
    refine ⟨.swapped hrow (written_of_update hrevision hnext hepoch), ⟨rfl, rfl, rfl, rfl⟩, ?_⟩
    obtain rfl := nextRevision_eq_ok hnext
    rintro _ ⟨⟩
    exact ⟨rfl, .written hencoded rfl⟩
  next =>
    simp only [bind_eq_ok] at h
    obtain ⟨⟨current, tx⟩, hload, h⟩ := h
    cases current with
    | none => cases h
    | some current =>
      obtain ⟨rfl, rfl⟩ := ok_pair_inj h
      obtain ⟨hupgraded, hread⟩ := sqliteLoad_eq_ok hload
      obtain ⟨row, hrow, hdecode⟩ := hread current rfl
      refine ⟨.read hupgraded, hupgraded.sameReceipts, fun stored hstored => ?_⟩
      obtain rfl := nextRevision_eq_ok hnext
      obtain ⟨rfl, heq⟩ := resolveCas_eq_applied hstored
      exact ⟨heq, .of_read hrow hdecode heq⟩

theorem compareAndSwapOperation_outcome {stamp : OperationStamp}
    (h : compareAndSwapOperation f fresh db epoch expected next stamp = .ok (db', result)) :
    Outcome db db' ∧ SameReceipts db db' ∧ AppliedCurrent f epoch expected next db' result := by
  simp only [compareAndSwapOperation, bind_eq_ok] at h
  obtain ⟨_, -, revision, hnext, encoded, hencoded, _, -, _, -, _, -, ⟨current, tx⟩, hload, h⟩ := h
  obtain ⟨hupgraded, hobserved⟩ := sqliteLoadOperation_eq_ok hload
  obtain rfl := nextRevision_eq_ok hnext
  cases current with
  | none => cases h
  | some current =>
    obtain ⟨row, hrow, hobserves⟩ := hobserved current rfl
    have hread : current.stored = ⟨epoch, f.withRevision next (expected + 1)⟩ →
        Current f epoch expected next tx := .of_read hrow hobserves.stored
    simp only [bind_eq_ok] at h
    obtain ⟨history, -, h⟩ := h
    split at h
    · -- a retained receipt: nothing is written
      split at h
      · cases h
      · split at h
        next hsame =>
          obtain ⟨rfl, rfl⟩ := ok_pair_inj h
          refine ⟨.read (.inl rfl), .refl _, ?_⟩
          rintro _ ⟨⟩
          have heq : current.stored = ⟨epoch, f.withRevision next (expected + 1)⟩ := by
            rw [← hsame.1, ← hsame.2.1]
          exact ⟨heq, .of_upgraded hupgraded (hread heq)⟩
        next =>
          obtain ⟨rfl, rfl⟩ := ok_pair_inj h
          exact ⟨.read (.inl rfl), .refl _, by rintro _ ⟨⟩⟩
    · split at h
      · cases h
      · split at h
        · obtain ⟨_, hresolve, heq⟩ := map_eq_ok.mp h
          obtain ⟨rfl, rfl⟩ := Prod.mk.inj heq
          refine ⟨.read (.inl rfl), .refl _, ?_⟩
          rintro stored rfl
          obtain ⟨hstored, heq⟩ := resolveOperationCasRead_eq_applied hresolve
          exact ⟨heq, .of_upgraded hupgraded (hread (hstored.trans heq))⟩
        · split at h
          next tx' hupdate =>
            obtain ⟨row, generation, hrow, hrevision, hepoch, rfl⟩ :=
              updateRow_eq_some hupgraded hupdate
            simp only [bind_eq_ok, insertCommitReceipt, Except.ok.injEq] at h
            obtain ⟨_, ⟨_, -, rfl⟩, h⟩ := h
            split at h
            next hcounted =>
              obtain ⟨rfl, rfl⟩ := ok_pair_inj h
              obtain ⟨hroom, hcounted⟩ := countRecord_eq hcounted
              rw [hcounted]
              refine ⟨.stamped _ hrow (written_of_update hrevision hnext hepoch) hroom,
                ⟨rfl, rfl, rfl, rfl⟩, ?_⟩
              rintro _ ⟨⟩
              exact ⟨rfl, .written hencoded rfl⟩
            next => cases h
          next =>
            simp only [bind_eq_ok] at h
            obtain ⟨_, hresolve, h⟩ := h
            obtain ⟨rfl, rfl⟩ := ok_pair_inj h
            refine ⟨.read hupgraded, hupgraded.sameReceipts, ?_⟩
            rintro stored rfl
            obtain ⟨hstored, heq⟩ := resolveOperationCasRead_eq_applied hresolve
            exact ⟨heq, hread (hstored.trans heq)⟩

/-! ## The sequenced call -/

/-- The columns of a sequenced write. -/
def SequencedOperationStamp.columns (stamp : SequencedOperationStamp) (revision : Nat) :
    OperationColumns :=
  ⟨some stamp.authorityId, some stamp.operationId, some revision, some stamp.candidateSha256,
    some 2, some stamp.acceptanceSeq⟩

/-- The row of the candidate: it holds it and carries its identity. -/
structure Candidate (f : Format Config) (epoch : Bytes) (expected : Nat) (next : Config)
    (stamp : SequencedOperationStamp) (row : Row) : Prop
    extends Holds f (expected + 1) (f.withRevision next (expected + 1)) row where
  epoch : row.epoch = epoch
  stamped : row.operation = stamp.columns (expected + 1)

/-- How a sequenced call ends when it does not fail. -/
inductive Sequenced (f : Format Config) (db : Db) (epoch : Bytes) (expected : Nat) (next : Config)
    (stamp : SequencedOperationStamp) : Db → CasResult Config → Prop where
  | conflict (current : Stored Config) : Sequenced f db epoch expected next stamp db (.conflict current)
  /-- The receipt is retained and the document still is the candidate. -/
  | replayed {tx : Db} {row : Row} (hupgraded : Upgraded db tx) (hrow : tx.row = some row)
      (hretained : (findReceipt db stamp.authorityId stamp.acceptanceSeq).isSome)
      (hcandidate : Candidate f epoch expected next stamp row) :
      Sequenced f db epoch expected next stamp db
        (.applied ⟨epoch, f.withRevision next (expected + 1)⟩)
  | written {row row' : Row} (generation : Nat) (hrow : db.row = some row)
      (hwritten : Written row row') (hcandidate : Candidate f epoch expected next stamp row')
      (hfresh : db.highWater stamp.authorityId < stamp.acceptanceSeq)
      (hroom : db.storedRecords < commitReceiptCapacity) :
      Sequenced f db epoch expected next stamp
        { db with
          row := some row'
          sequencedReceipts := db.sequencedReceipts ++ [⟨⟨epoch, expected + 1, stamp⟩, true⟩]
          authorities := db.authorities.insert stamp.authorityId ⟨stamp.acceptanceSeq, generation⟩
          storedRecords := db.storedRecords + 1 }
        (.applied ⟨epoch, f.withRevision next (expected + 1)⟩)

omit [DecidableEq Config] in
theorem sqliteSequencedObservation_eq_ok {authorityId : Bytes}
    {observation : SequencedReceiptObservation}
    (h : sqliteSequencedObservation f db authorityId seq = .ok observation) :
    observation.highWater = db.highWater authorityId ∧
      (observation.receipt.isSome → (findReceipt db authorityId seq).isSome) := by
  unfold sqliteSequencedObservation at h
  split at h
  next =>
    obtain ⟨hreceipt, hmark, -⟩ := sequencedObservation_eq_ok h
    exact ⟨hmark, by simp [hreceipt]⟩
  next row hfind =>
    simp only [bind_eq_ok] at h
    obtain ⟨_, -, receipt, -, h⟩ := h
    obtain ⟨-, hmark, -⟩ := sequencedObservation_eq_ok h
    exact ⟨hmark, fun _ => by rw [hfind]; rfl⟩

theorem Upgraded.tables (h : Upgraded db tx) : tx = { db with row := tx.row } := by
  rcases h with rfl | ⟨row, fresh, -, -, rfl⟩
  · rfl
  · rfl

omit [DecidableEq Config] in
theorem decodeVersion_eq_ok {stamp : OperationStamp} {version sequence : Option Nat}
    (h : decodeVersion f stamp version sequence = .ok (2, some seq)) :
    version = some 2 ∧ sequence = some seq := by
  unfold decodeVersion at h
  split at h
  · cases h
  · cases h
  · simp only [bind_eq_ok, Except.ok.injEq, Prod.mk.injEq] at h
    obtain ⟨_, -, _, -, _, -, -, hseq⟩ := h
    exact ⟨rfl, hseq⟩
  · cases h

omit [DecidableEq Config] in
/-- What is read of the stamp was stored: a text that is too long would be `NULL`. -/
theorem read_eq_columns {columns : OperationColumns} {metadata : OperationMetadata}
    (h : decodeOperationMetadata f columns.read = .ok (some metadata))
    (hversion : metadata.version = 2) (hseq : metadata.sequence = some seq) :
    columns = ⟨some metadata.stamp.authorityId, some metadata.stamp.operationId,
      some metadata.revision, some metadata.stamp.candidateSha256, some 2, some seq⟩ := by
  unfold decodeOperationMetadata at h
  split at h
  · split at h <;> cases h
  next authorityId operationId revision sha256 hauthority hoperation hrevision hsha =>
    simp only [bind_eq_ok] at h
    obtain ⟨_, -, ⟨version, sequence⟩, hdecode, h⟩ := h
    obtain rfl := Option.some.inj (Except.ok.inj h)
    obtain rfl : version = 2 := hversion
    obtain rfl : sequence = some seq := hseq
    obtain ⟨hcolumn, hsequence⟩ := decodeVersion_eq_ok hdecode
    -- each column that was read is the one that is there
    have hauthority := (Option.filter_eq_some_iff.mp hauthority).1
    have hoperation := (Option.filter_eq_some_iff.mp hoperation).1
    have hsha := (Option.filter_eq_some_iff.mp hsha).1
    cases columns
    simp only [OperationColumns.read] at hauthority hoperation hrevision hsha hcolumn hsequence
    simp only [hauthority, hoperation, hrevision, hsha, hcolumn, hsequence]
  · cases h

variable {stamp : SequencedOperationStamp}

omit [DecidableEq Config] in
/-- A document that proves the stamp is the candidate's row. -/
theorem candidate_of_proof {row : Row} {current : Observed Config}
    (hobserves : Observes f row current) (hepoch : current.stored.epoch = epoch)
    (hconfig : current.stored.config = f.withRevision next (expected + 1))
    (hproof : currentSequencedProof f current stamp = true) :
    Candidate f epoch expected next stamp row := by
  obtain ⟨metadata, hmetadata, hmatch⟩ := (Option.any_eq_true _ _).mp hproof
  obtain ⟨hversion, hseq, hrevision, hauthority, hoperation, hsha, -⟩ := of_decide_eq_true hmatch
  have hcolumns := read_eq_columns (hobserves.metadata metadata hmetadata) hversion hseq
  obtain ⟨hsame, hholds⟩ := decodeRow_eq_ok hobserves.stored
  rw [hconfig, f.revision_withRevision] at hholds hrevision
  refine ⟨hholds, hsame.trans hepoch, ?_⟩
  rw [hcolumns, hauthority, hoperation, hsha, hrevision]
  rfl

theorem raiseHighWater_eq {authorityId : Bytes} (h : (raiseHighWater db authorityId seq).2 = true) :
    (raiseHighWater db authorityId seq).1 =
      { db with
        authorities := db.authorities.insert authorityId ⟨seq,
          ((db.authorities.lookup authorityId).map Authority.retentionGeneration).getD 0⟩ } := by
  unfold raiseHighWater at h ⊢
  split
  next hlookup =>
    rw [hlookup]
    rfl
  next authority hlookup =>
    rw [hlookup] at h ⊢
    split
    next => rfl
    next hlow =>
      simp only [if_neg hlow] at h
      cases h

omit [DecidableEq Config] in
/-- What a sequenced call writes is a valid receipt. -/
theorem sequencedReceipt_of_stamp {encoded : Bytes} (hepoch : checkEpoch epoch = .ok ())
    (hstamp : validateSequencedStamp f stamp encoded = .ok ()) :
    sequencedReceipt f ⟨epoch, expected + 1, stamp⟩ = .ok ⟨epoch, expected + 1, stamp⟩ := by
  unfold validateSequencedStamp at hstamp
  rw [bind_eq_ok] at hstamp
  obtain ⟨operationId, hcanonical, hensure⟩ := hstamp
  obtain ⟨hoperation, hsha, -⟩ := ensure_eq_ok.mp hensure
  simp [sequencedReceipt, hcanonical, hoperation, hsha, hepoch, ok_bind]

theorem compareAndSwapOperationV2_eq_ok
    (h : compareAndSwapOperationV2 f fresh db epoch expected next stamp = .ok (db', result)) :
    epoch ≠ [] ∧ Sequenced f db epoch expected next stamp db' result ∧
      (SameReceipts db db' ∨ Committed f db db' ⟨epoch, expected + 1, stamp⟩) := by
  simp only [compareAndSwapOperationV2, bind_eq_ok] at h
  obtain ⟨_, hepoch, revision, hnext, encoded, hencode, _, hstamp, _, -, _, -, ⟨current, tx⟩, hload,
    h⟩ := h
  obtain rfl := nextRevision_eq_ok hnext
  have hnonempty : epoch ≠ [] := by
    rintro rfl
    cases hepoch
  refine ⟨hnonempty, ?_⟩
  obtain ⟨hupgraded, hobserved⟩ := sqliteLoadOperation_eq_ok hload
  cases current with
  | none => cases h
  | some current =>
    obtain ⟨row, hrow, hobserves⟩ := hobserved current rfl
    simp only [bind_eq_ok] at h
    obtain ⟨observation, hobservation, h⟩ := h
    obtain ⟨hmark, hretained⟩ := sqliteSequencedObservation_eq_ok hobservation
    rw [hupgraded.tables] at hmark hretained
    split at h
    next receipt hreceipt =>
      -- the receipt is retained
      split at h
      · cases h
      · split at h
        next hproof =>
          obtain ⟨rfl, rfl⟩ := ok_pair_inj h
          obtain ⟨hcurrent, hconfig, hproof⟩ := hproof
          have hcandidate := candidate_of_proof hobserves hcurrent hconfig hproof
          rw [show current.stored = ⟨epoch, f.withRevision next (expected + 1)⟩ by
            rw [← hcurrent, ← hconfig]]
          exact ⟨.replayed hupgraded hrow (hretained (by rw [hreceipt]; rfl)) hcandidate,
            .inl (.refl _)⟩
        next =>
          obtain ⟨rfl, rfl⟩ := ok_pair_inj h
          exact ⟨.conflict _, .inl (.refl _)⟩
    next =>
      split at h
      next =>
        obtain ⟨rfl, rfl⟩ := ok_pair_inj h
        exact ⟨.conflict _, .inl (.refl _)⟩
      next hfresh =>
        split at h
        · cases h
        · split at h
          next =>
            obtain ⟨rfl, rfl⟩ := ok_pair_inj h
            exact ⟨.conflict _, .inl (.refl _)⟩
          next tx' hupdate =>
            obtain ⟨old, generation, hold, hrevision, hsame, rfl⟩ :=
              updateRow_eq_some hupgraded hupdate
            simp only [bind_eq_ok, insertSequencedReceipt, Except.ok.injEq] at h
            obtain ⟨_, ⟨_, -, rfl⟩, h⟩ := h
            split at h
            next hboth =>
              obtain ⟨hraised, hcounted⟩ := Bool.and_eq_true_iff.mp hboth
              have hraise := raiseHighWater_eq hraised
              obtain ⟨hroom, hcount⟩ := countRecord_eq hcounted
              obtain ⟨rfl, rfl⟩ := ok_pair_inj h
              rw [hcount, hraise]
              rw [hraise] at hroom
              rw [hmark] at hfresh
              exact ⟨.written _ hold (written_of_update hrevision hnext hsame)
                ⟨⟨rfl, .inl (Format.encode_eq_ok.mp hencode).2.2⟩, rfl, rfl⟩
                (Nat.lt_of_not_le hfresh) hroom,
                .inr ⟨sequencedReceipt_of_stamp hepoch hstamp, Nat.lt_of_not_le hfresh,
                  rfl, rfl, rfl, rfl⟩⟩
            next => cases h

theorem compareAndSwapOperationV2_outcome
    (h : compareAndSwapOperationV2 f fresh db epoch expected next stamp = .ok (db', result)) :
    Outcome db db' := by
  obtain ⟨hepoch, hsequenced, -⟩ := compareAndSwapOperationV2_eq_ok h
  cases hsequenced with
  | conflict => exact .read (.inl rfl)
  | replayed => exact .read (.inl rfl)
  | written generation hrow hwritten hcandidate hfresh hroom =>
    refine .sequenced _ generation hrow hwritten ?_ hfresh hroom
    rw [hcandidate.epoch]
    exact hepoch

/-- **Every step is an outcome.** -/
theorem step_outcome {event : Event Config} (h : (sqlite f).step db event = some db') :
    Outcome db db' := by
  cases event with
  | fault => exact Option.some.inj h ▸ .read (.inl rfl)
  | call call fresh =>
    obtain rfl : settled db (perform f fresh db call) = db' := Option.some.inj h
    cases hperform : perform f fresh db call with
    | error e => exact .read (.inl rfl)
    | ok tx =>
      show Outcome db tx
      cases call with
      -- each call has its outcome lemma; the reads leave the database alone
      | seed initial epoch => exact (seed_outcome hperform).1
      | loadLatest => exact Except.ok.inj hperform ▸ .read (upgradeEpoch_upgraded db fresh)
      | compareAndSwap epoch expected next =>
        obtain ⟨⟨_, _⟩, hcall, rfl⟩ := map_eq_ok.mp hperform
        exact (compareAndSwap_outcome hcall).1
      | compareAndSwapOperation epoch expected next stamp =>
        obtain ⟨⟨_, _⟩, hcall, rfl⟩ := map_eq_ok.mp hperform
        exact (compareAndSwapOperation_outcome hcall).1
      | compareAndSwapOperationV2 epoch expected next stamp =>
        obtain ⟨⟨_, _⟩, hcall, rfl⟩ := map_eq_ok.mp hperform
        exact compareAndSwapOperationV2_outcome hcall
      | releaseCommitReceiptV2 releaseId receipt => exact releaseCommitReceiptV2_outcome hperform
      | loadCurrentOperationProof =>
        obtain ⟨⟨_, _⟩, hcall, rfl⟩ := map_eq_ok.mp hperform
        exact (loadCurrentOperationProof_outcome hcall).1
      | lookupCommitReceipt =>
        obtain ⟨_, -, rfl⟩ := map_eq_ok.mp hperform
        exact .read (.inl rfl)
      | lookupCommitReceiptV2 =>
        obtain ⟨_, -, rfl⟩ := map_eq_ok.mp hperform
        exact .read (.inl rfl)
      | lookupReceiptPinV2 =>
        obtain ⟨_, -, rfl⟩ := map_eq_ok.mp hperform
        exact .read (.inl rfl)
      | lookupReceiptReleaseV2 =>
        obtain ⟨_, -, rfl⟩ := map_eq_ok.mp hperform
        exact .read (.inl rfl)

end ConfigStore
