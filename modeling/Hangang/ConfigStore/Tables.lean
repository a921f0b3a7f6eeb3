import Hangang.ConfigStore.Document
import Hangang.Framework.Table

/-! # The Tables of the Store

    SQLite and PostgreSQL keep the same tables: the document, the receipts of stamped
    and of sequenced writes, a high-water mark for every authority, and the evidence of
    released receipts. Both send the same guarded statements.

    Every writer advances the write generation of the document, so the trigger that
    guards stamped documents never fires. -/

open Bytes Except

namespace ConfigStore

/-! ## The database -/

structure Row where
  revision : Nat
  json : Bytes
  /-- Empty in a document from before there were epochs. -/
  epoch : Bytes
  operation : OperationColumns
  writeGeneration : Nat
  deriving DecidableEq, Repr

structure RetainedReceipt where
  receipt : SequencedCommitReceipt
  unresolvedPin : Bool
  deriving DecidableEq, Repr

structure Authority where
  highWater : Nat
  retentionGeneration : Nat
  deriving DecidableEq, Repr

structure Db where
  row : Option Row
  commitReceipts : List CommitReceipt
  sequencedReceipts : List RetainedReceipt
  authorities : Table Bytes Authority
  /-- `hangang_commit_receipt_meta`. -/
  storedRecords : Nat
  releases : List (Bytes × SequencedCommitReceipt)
  /-- `hangang_receipt_release_meta`. -/
  releaseRecords : Nat

/-- A database without receipts, with the document of an older version if there is one. -/
def initial (document : Option Row) : Db where
  row := document
  commitReceipts := []
  sequencedReceipts := []
  authorities := ∅
  storedRecords := 0
  releases := []
  releaseRecords := 0

/-! ## Statements -/

/-- A statement that violates a constraint, as SQLite reports it. -/
def sqliteConstraint : StoreError := .invalid "SQLite configuration store operation failed"

section statements

variable (db : Db)

/-- The guarded update that gives a document its epoch. -/
def upgradeEpoch (fresh : Bytes) : Db :=
  { db with row := db.row.map fun row => if row.epoch = [] then { row with epoch := fresh } else row }

/-- The guarded update of a compare-and-swap. -/
def updateRow (expected : Nat) (epoch : Bytes) (allowed : Row → Bool) (revision : Nat)
    (json : Bytes) (operation : OperationColumns) : Option Db :=
  match db.row with
  | none => none
  | some row =>
    if row.revision = expected ∧ row.epoch = epoch ∧ row.writeGeneration < 9223372036854775807 ∧
        allowed row then
      some { db with row := some ⟨revision, json, row.epoch, operation, row.writeGeneration + 1⟩ }
    else none

def insertCommitReceipt (receipt : CommitReceipt) : StoreResult Db := do
  ensure (0 < receipt.revision ∧ ∀ old ∈ db.commitReceipts,
    ¬ (old.stamp.authorityId = receipt.stamp.authorityId ∧
      old.stamp.operationId = receipt.stamp.operationId)) sqliteConstraint
  .ok { db with commitReceipts := db.commitReceipts ++ [receipt] }

/-- New receipts are pinned. -/
def insertSequencedReceipt (receipt : SequencedCommitReceipt) : StoreResult Db := do
  ensure (0 < receipt.revision ∧ 0 < receipt.stamp.acceptanceSeq ∧
    receipt.stamp.acceptanceSeq ≤ maxAcceptanceSequence ∧ ∀ old ∈ db.sequencedReceipts,
    ¬ (old.receipt.stamp.authorityId = receipt.stamp.authorityId ∧
      (old.receipt.stamp.acceptanceSeq = receipt.stamp.acceptanceSeq ∨
        old.receipt.stamp.operationId = receipt.stamp.operationId))) sqliteConstraint
  .ok { db with sequencedReceipts := db.sequencedReceipts ++ [⟨receipt, true⟩] }

/-- The upsert of a high-water mark, with whether a row changed. -/
def raiseHighWater (authorityId : Bytes) (seq : Nat) : Db × Bool :=
  match db.authorities.lookup authorityId with
  | none => ({ db with authorities := db.authorities.insert authorityId ⟨seq, 0⟩ }, true)
  | some authority =>
    if authority.highWater < seq then
      ({ db with
        authorities := db.authorities.insert authorityId { authority with highWater := seq } }, true)
    else (db, false)

/-- The bounded counter of both kinds of receipts, with whether it was raised. -/
def countRecord : Db × Bool :=
  if db.storedRecords < commitReceiptCapacity then
    ({ db with storedRecords := db.storedRecords + 1 }, true)
  else (db, false)

/-- `sqlite_receipt_observation`; PostgreSQL selects the same columns. -/
def sqliteReceiptObservation (authorityId operationId : Bytes) :
    StoreResult CommitReceiptObservation :=
  match db.commitReceipts.find? fun receipt =>
      receipt.stamp.authorityId = authorityId ∧ receipt.stamp.operationId = operationId with
  | none => receiptObservation none db.storedRecords
  | some row => do
    ensure (row.stamp.authorityId.length ≤ 32 ∧ row.stamp.operationId.length ≤ 32 ∧
      row.epoch.length ≤ 32 ∧ row.stamp.candidateSha256.length ≤ 64)
      (StoreError.invalid "invalid stored commit receipt")
    let receipt ← commitReceipt row
    receiptObservation (some receipt) db.storedRecords

/-- The retained receipt of an authority's sequence. -/
def findReceipt (authorityId : Bytes) (seq : Nat) : Option RetainedReceipt :=
  db.sequencedReceipts.find? fun row =>
    row.receipt.stamp.authorityId = authorityId ∧ row.receipt.stamp.acceptanceSeq = seq

/-- The texts of a retained receipt are not longer than they may be. -/
def receiptFits (receipt : SequencedCommitReceipt) : Prop :=
  receipt.stamp.authorityId.length ≤ 32 ∧ receipt.stamp.operationId.length ≤ 32 ∧
    receipt.epoch.length ≤ 32 ∧ receipt.stamp.candidateSha256.length ≤ 64

instance (receipt : SequencedCommitReceipt) : Decidable (receiptFits receipt) :=
  inferInstanceAs (Decidable (_ ∧ _))

end statements

/-- A document whose row was read. -/
def decodeRow {Config : Type} (f : Format Config) (row : Row) :
    StoreResult (Stored Config) := do
  checkEpoch row.epoch
  let config ← f.decode row.revision row.json
  .ok ⟨row.epoch, config⟩

/-- `sqlite_sequenced_observation`; PostgreSQL selects the same columns. -/
def sqliteSequencedObservation {Config : Type} (f : Format Config) (db : Db) (authorityId : Bytes) (seq : Nat) :
    StoreResult SequencedReceiptObservation :=
  let highWater := (db.authorities.lookup authorityId).map Authority.highWater
  let authorities := min db.authorities.size 4097
  match findReceipt db authorityId seq with
  | none => sequencedObservation none highWater db.storedRecords authorities
  | some row => do
    ensure (receiptFits row.receipt) (StoreError.invalid "invalid sequenced receipt")
    let receipt ← sequencedReceipt f row.receipt
    sequencedObservation (some receipt) highWater db.storedRecords authorities

/-! ## The document after a statement -/

/-- The row that a guarded update leaves. -/
theorem updateRow_row {db db' : Db} {expected revision : Nat} {epoch json : Bytes}
    {allowed : Row → Bool} {operation : OperationColumns}
    (h : updateRow db expected epoch allowed revision json operation = some db') :
    ∃ generation, db'.row = some ⟨revision, json, epoch, operation, generation⟩ := by
  unfold updateRow at h
  split at h
  · cases h
  next row hrow =>
    split at h
    next hguard =>
      obtain rfl := Option.some.inj h
      exact ⟨row.writeGeneration + 1, by rw [hguard.2.1]⟩
    next => cases h

theorem insertCommitReceipt_row {db db' : Db} {receipt : CommitReceipt}
    (h : insertCommitReceipt db receipt = .ok db') : db'.row = db.row := by
  simp only [insertCommitReceipt, bind_eq_ok] at h
  obtain ⟨_, -, h⟩ := h
  rw [← Except.ok.inj h]

theorem insertSequencedReceipt_row {db db' : Db} {receipt : SequencedCommitReceipt}
    (h : insertSequencedReceipt db receipt = .ok db') : db'.row = db.row := by
  simp only [insertSequencedReceipt, bind_eq_ok] at h
  obtain ⟨_, -, h⟩ := h
  rw [← Except.ok.inj h]

theorem raiseHighWater_row (db : Db) (authorityId : Bytes) (seq : Nat) :
    (raiseHighWater db authorityId seq).1.row = db.row := by
  unfold raiseHighWater
  split
  · rfl
  · split <;> rfl

theorem countRecord_row (db : Db) : (countRecord db).1.row = db.row := by
  unfold countRecord
  split <;> rfl

/-- The row holds the document at the revision: as it is written, or so that it is read. -/
structure Holds {Config : Type} (f : Format Config) (revision : Nat) (config : Config)
    (row : Row) : Prop where
  numbered : row.revision = revision
  document : f.serialize config = row.json ∨ f.decode revision row.json = .ok config

/-- A row that decodes. -/
theorem decodeRow_eq_ok {Config : Type} {f : Format Config} {row : Row} {stored : Stored Config}
    (h : decodeRow f row = .ok stored) :
    row.epoch = stored.epoch ∧ Holds f (f.revision stored.config) stored.config row := by
  simp only [decodeRow, bind_eq_ok] at h
  obtain ⟨_, -, config, hconfig, h⟩ := h
  obtain rfl := Except.ok.inj h
  have hrevision : f.revision config = row.revision := Format.decode_revision hconfig
  exact ⟨rfl, hrevision.symm, .inr (hrevision ▸ hconfig)⟩

end ConfigStore
