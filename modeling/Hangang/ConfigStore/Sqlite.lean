import Hangang.ConfigStore.Tables
import Hangang.Framework.Machine

/-! # The SQLite Store

    The calls of `SqliteConfigStore`. A call runs in one immediate
    transaction, which is atomic and serializable: here it is a function from the
    database it finds to the database it commits, or an error, which rolls
    everything back. A call that returns before its commit leaves the database as it
    was, too. Only `load_latest` and `bootstrap` hold no transaction; each of their
    statements is one by itself. -/

open Bytes Except

namespace ConfigStore

section calls

variable {Config : Type} (f : Format Config)

/-- `sqlite_row`. -/
def sqliteRow (db : Db) : StoreResult (Option Row) :=
  match db.row with
  | none => .ok none
  | some row => do
    ensure (row.json.length ≤ maxConfigBytes)
      (StoreError.invalid "stored SQLite configuration exceeds 1 MiB")
    ensure (row.epoch.length ≤ epochLen)
      (StoreError.invalid "stored SQLite authority epoch exceeds 32 bytes")
    .ok (some row)

/-- `sqlite_release_receipt`. -/
def sqliteReleaseReceipt (db : Db) (releaseId : Bytes) :
    StoreResult (Option SequencedCommitReceipt) :=
  match db.releases.lookup releaseId with
  | none => .ok none
  | some receipt => (sequencedReceipt f receipt).map some

/-- `sqlite_load`, with the epoch that is drawn for a document without one. -/
def sqliteLoad (fresh : Bytes) (db : Db) : StoreResult (Option (Stored Config) × Db) := do
  match ← sqliteRow db with
  | none => .ok (none, db)
  | some row =>
    if row.epoch = [] then
      let db := upgradeEpoch db fresh
      match ← sqliteRow db with
      | none => .error (.invalid "SQLite document vanished during epoch upgrade")
      | some row =>
        let stored ← decodeRow f row
        .ok (some stored, db)
    else
      let stored ← decodeRow f row
      .ok (some stored, db)

/-- `sqlite_load_operation`. -/
def sqliteLoadOperation (fresh : Bytes) (db : Db) :
    StoreResult (Option (Observed Config) × Db) := do
  let (stored, db) ← sqliteLoad f fresh db
  match stored with
  | none => .ok (none, db)
  | some stored =>
    match ← sqliteRow db with
    | none => .error (.invalid "SQLite configuration row vanished")
    | some row =>
      ensure (row.revision = f.revision stored.config ∧ row.epoch = stored.epoch)
        (StoreError.invalid "SQLite configuration row changed during proof read")
      if row.operation = .empty then .ok (some ⟨stored, row.json, none⟩, db)
      else
        match ← decodeOperationMetadata f row.operation.read with
        | none => .error (.invalid "invalid stored operation stamp")
        | some metadata => .ok (some ⟨stored, row.json, some metadata⟩, db)

def notInitialized : StoreError := .invalid "SQLite configuration store is not initialized"

/-- The insertion of `bootstrap`, with the epoch that is drawn for it. -/
def seed (db : Db) (initial : Config) (epoch : Bytes) : StoreResult Db := do
  let encoded ← f.encode initial
  revisionToI64 (f.revision initial)
  match db.row with
  | some _ => .ok db
  | none => .ok { db with row := some ⟨f.revision initial, encoded, epoch, .empty, 0⟩ }

variable [DecidableEq Config]

/-- `compare_and_swap`. -/
def compareAndSwap (fresh : Bytes) (db : Db) (epoch : Bytes) (expected : Nat) (next : Config) :
    StoreResult (Db × CasResult Config) := do
  let revision ← nextRevision expected
  let next := f.withRevision next revision
  let encoded ← f.encode next
  revisionToI64 revision
  revisionToI64 expected
  match updateRow db expected epoch (fun _ => true) revision encoded .empty with
  | some db => .ok (db, .applied ⟨epoch, next⟩)
  | none =>
    let (current, db) ← sqliteLoad f fresh db
    match current with
    | none => .error notInitialized
    | some current => .ok (db, resolveCas current epoch next)

/-- `compare_and_swap_operation`. -/
def compareAndSwapOperation (fresh : Bytes) (db : Db) (epoch : Bytes) (expected : Nat)
    (next : Config) (stamp : OperationStamp) : StoreResult (Db × CasResult Config) := do
  checkEpoch epoch
  let revision ← nextRevision expected
  let next := f.withRevision next revision
  let encoded ← f.encode next
  validateOperationStamp f stamp encoded
  revisionToI64 revision
  revisionToI64 expected
  let (current, tx) ← sqliteLoadOperation f fresh db
  match current with
  | none => .error notInitialized
  | some current =>
    let history ← sqliteReceiptObservation tx stamp.authorityId stamp.operationId
    match history.receipt with
    | some receipt =>
      if receipt.epoch ≠ epoch ∨ receipt.revision ≠ revision ∨ receipt.stamp ≠ stamp then
        .error (.invalid "operation identifier reused with another candidate or precondition")
      else if current.stored.epoch = epoch ∧ current.stored.config = next ∧
          ((currentV1OperationProof f current).any fun proof => proof.stamp = stamp) then
        .ok (db, .applied current.stored)
      else .ok (db, .conflict current.stored)
    | none =>
      if !history.writesAvailable then
        .error (.unavailable "retained commit receipt capacity exhausted")
      else if current.metadata.any fun metadata =>
          metadata.stamp.operationId = stamp.operationId then
        (resolveOperationCasRead f current epoch next stamp false).map fun result => (db, result)
      else
        match updateRow tx expected epoch
            (fun row => row.operation.operationId.all fun id => id ≠ stamp.operationId)
            revision encoded
            ⟨some stamp.authorityId, some stamp.operationId, some revision,
              some stamp.candidateSha256, some 1, none⟩ with
        | some tx => do
          let tx ← insertCommitReceipt tx ⟨epoch, revision, stamp⟩
          let (tx, counted) := countRecord tx
          if counted then .ok (tx, .applied ⟨epoch, next⟩)
          else .error (.unavailable "retained commit receipt capacity exhausted")
        | none => do
          let result ← resolveOperationCasRead f current epoch next stamp false
          .ok (tx, result)

/-- `compare_and_swap_operation_v2`. -/
def compareAndSwapOperationV2 (fresh : Bytes) (db : Db) (epoch : Bytes) (expected : Nat)
    (next : Config) (stamp : SequencedOperationStamp) : StoreResult (Db × CasResult Config) := do
  checkEpoch epoch
  let revision ← nextRevision expected
  let next := f.withRevision next revision
  let encoded ← f.encode next
  validateSequencedStamp f stamp encoded
  revisionToI64 revision
  revisionToI64 expected
  let (current, tx) ← sqliteLoadOperation f fresh db
  match current with
  | none => .error notInitialized
  | some current =>
    let observation ← sqliteSequencedObservation f tx stamp.authorityId stamp.acceptanceSeq
    match observation.receipt with
    | some receipt =>
      if receipt.epoch ≠ epoch ∨ receipt.revision ≠ revision ∨ receipt.stamp ≠ stamp then
        .error (.invalid "sequenced operation identity reused")
      else if current.stored.epoch = epoch ∧ current.stored.config = next ∧
          currentSequencedProof f current stamp then .ok (db, .applied current.stored)
      else .ok (db, .conflict current.stored)
    | none =>
      if stamp.acceptanceSeq ≤ observation.highWater then .ok (db, .conflict current.stored)
      else if !observation.writesAvailable then
        .error (.unavailable "sequenced receipt or authority capacity exhausted")
      else
        match updateRow tx expected epoch (fun _ => true) revision encoded
            ⟨some stamp.authorityId, some stamp.operationId, some revision,
              some stamp.candidateSha256, some 2, some stamp.acceptanceSeq⟩ with
        | none => .ok (db, .conflict current.stored)
        | some tx => do
          let tx ← insertSequencedReceipt tx ⟨epoch, revision, stamp⟩
          let (tx, raised) := raiseHighWater tx stamp.authorityId stamp.acceptanceSeq
          let (tx, counted) := countRecord tx
          if raised && counted then .ok (tx, .applied ⟨epoch, next⟩)
          else .error (.unavailable "sequenced receipt capacity exhausted")

/-- `release_commit_receipt_v2`. -/
def releaseCommitReceiptV2 (db : Db) (releaseId : Bytes) (receipt : SequencedCommitReceipt) :
    StoreResult Db := do
  ensure (validHex releaseId 32) (StoreError.invalid "invalid receipt release identity")
  revisionToI64 receipt.revision
  let _ ← sequencedReceipt f receipt
  match ← sqliteReleaseReceipt f db releaseId with
  | some existing =>
    if existing = receipt then .ok db
    else .error (.invalid "receipt release identity reused")
  | none =>
    let stamp := receipt.stamp
    let observed ← sqliteSequencedObservation f db stamp.authorityId stamp.acceptanceSeq
    ensure (observed.receipt = some receipt)
      (StoreError.invalid "receipt release does not match retained commit")
    ensure ((findReceipt db stamp.authorityId stamp.acceptanceSeq).any (·.unresolvedPin))
      (StoreError.invalid "receipt was already released")
    ensure (db.releaseRecords < 100000)
      (StoreError.unavailable "receipt release evidence capacity exhausted")
    ensure (∀ old ∈ db.releases, old.1 ≠ releaseId ∧
      ¬ (old.2.stamp.authorityId = stamp.authorityId ∧
        old.2.stamp.acceptanceSeq = stamp.acceptanceSeq)) sqliteConstraint
    .ok { db with
      releases := db.releases ++ [(releaseId, receipt)]
      sequencedReceipts := db.sequencedReceipts.map fun row =>
        if row.receipt.stamp.authorityId = stamp.authorityId ∧
            row.receipt.stamp.acceptanceSeq = stamp.acceptanceSeq then
          { row with unresolvedPin := false }
        else row
      releaseRecords := db.releaseRecords + 1 }

/-! ## Reads -/

/-- `load_current_operation_proof`. -/
def loadCurrentOperationProof (fresh : Bytes) (db : Db) :
    StoreResult (Db × Option OperationProof) := do
  let (current, db) ← sqliteLoadOperation f fresh db
  .ok (db, current.bind (currentOperationProof f))

/-- `lookup_commit_receipt`. -/
def lookupCommitReceipt (db : Db) (authorityId operationId : Bytes) :
    StoreResult CommitReceiptObservation := do
  validateReceiptIds authorityId operationId
  sqliteReceiptObservation db authorityId operationId

/-- `lookup_commit_receipt_v2`. -/
def lookupCommitReceiptV2 (db : Db) (authorityId : Bytes) (seq : Nat) :
    StoreResult SequencedReceiptObservation := do
  let _ ← canonicalOperationId f authorityId seq
  sqliteSequencedObservation f db authorityId seq

/-- `lookup_receipt_pin_v2`. -/
def lookupReceiptPinV2 (db : Db) (authorityId : Bytes) (seq : Nat) : StoreResult (Option Bool) := do
  let _ ← canonicalOperationId f authorityId seq
  .ok ((findReceipt db authorityId seq).map RetainedReceipt.unresolvedPin)

/-- `lookup_receipt_release_v2`. -/
def lookupReceiptReleaseV2 (db : Db) (releaseId : Bytes) :
    StoreResult (Option SequencedCommitReceipt) := do
  ensure (validHex releaseId 32) (StoreError.invalid "invalid receipt release identity")
  sqliteReleaseReceipt f db releaseId

end calls

/-! ## Runs -/

/-- The calls of a store that several authorities share. -/
inductive Call (Config : Type) where
  /-- The insertion of `bootstrap`, which then reads like `load_latest`. -/
  | seed (initial : Config) (epoch : Bytes)
  | loadLatest
  | compareAndSwap (epoch : Bytes) (expected : Nat) (next : Config)
  | compareAndSwapOperation (epoch : Bytes) (expected : Nat) (next : Config)
      (stamp : OperationStamp)
  | compareAndSwapOperationV2 (epoch : Bytes) (expected : Nat) (next : Config)
      (stamp : SequencedOperationStamp)
  | releaseCommitReceiptV2 (releaseId : Bytes) (receipt : SequencedCommitReceipt)
  | loadCurrentOperationProof
  | lookupCommitReceipt (authorityId operationId : Bytes)
  | lookupCommitReceiptV2 (authorityId : Bytes) (seq : Nat)
  | lookupReceiptPinV2 (authorityId : Bytes) (seq : Nat)
  | lookupReceiptReleaseV2 (releaseId : Bytes)

section runs

variable {Config : Type} [DecidableEq Config] (f : Format Config)

/-- What a call leaves in the database. -/
def perform (fresh : Bytes) (db : Db) : Call Config → StoreResult Db
  | .seed initial epoch => seed f db initial epoch
  -- `load_latest` holds no transaction: its guarded update may find another document
  -- than its first read, and stays when its second read fails.
  | .loadLatest => .ok (upgradeEpoch db fresh)
  | .compareAndSwap epoch expected next =>
    (compareAndSwap f fresh db epoch expected next).map Prod.fst
  | .compareAndSwapOperation epoch expected next stamp =>
    (compareAndSwapOperation f fresh db epoch expected next stamp).map Prod.fst
  | .compareAndSwapOperationV2 epoch expected next stamp =>
    (compareAndSwapOperationV2 f fresh db epoch expected next stamp).map Prod.fst
  | .releaseCommitReceiptV2 releaseId receipt => releaseCommitReceiptV2 f db releaseId receipt
  | .loadCurrentOperationProof => (loadCurrentOperationProof f fresh db).map Prod.fst
  | .lookupCommitReceipt authorityId operationId =>
    (lookupCommitReceipt db authorityId operationId).map fun _ => db
  | .lookupCommitReceiptV2 authorityId seq =>
    (lookupCommitReceiptV2 f db authorityId seq).map fun _ => db
  | .lookupReceiptPinV2 authorityId seq =>
    (lookupReceiptPinV2 f db authorityId seq).map fun _ => db
  | .lookupReceiptReleaseV2 releaseId =>
    (lookupReceiptReleaseV2 f db releaseId).map fun _ => db

inductive Event (Config : Type) where
  /-- A call runs, with the epoch it draws for a document that has none. -/
  | call (call : Call Config) (fresh : Bytes)
  /-- A statement of the call fails in the database; the transaction is rolled back. -/
  | fault (call : Call Config)

/-- The database after a call that may have failed. -/
def settled (db : Db) : StoreResult Db → Db
  | .ok db' => db'
  | .error _ => db

/-- The store, one serialized transaction after the other. -/
def sqlite : Machine Db (Event Config) where
  step db
    | .call call fresh => some (settled db (perform f fresh db call))
    | .fault _ => some db

end runs

end ConfigStore
